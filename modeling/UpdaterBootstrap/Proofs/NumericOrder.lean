import Mathlib
import UpdaterBootstrap.Proofs.ChosenOptions
import UpdaterBootstrap.Proofs.MergeLaws

/-!
# Keys as numbers

A finite double is an exact number, and the order of keys is that of their numbers
(`SequenceKey.numeric_order`): the bits below the sign grow with the number, since the fraction runs
through its whole range before the exponent grows. Both zeros are made one key, so keys with the
same number have the same bits, and merging action lists groups entries by number.
-/

namespace UpdaterBootstrap

/-! ## Magnitudes -/

namespace Binary64

def number? : Binary64 → Option ℚ
  | .finite negative m e => some ((if negative then -1 else 1) * m * 2 ^ e)
  | _ => none

def smallest : ℚ :=
  2 ^ (-1074 : Int)

/-- The bits below the sign as a multiple of the smallest positive double. -/
def units (n : Nat) : Nat :=
  if n < 2 ^ 52 then n else (2 ^ 52 + n % 2 ^ 52) * 2 ^ (n / 2 ^ 52 - 1)

theorem units_of_zero {n : Nat} (h : n / 2 ^ 52 = 0) : units n = n % 2 ^ 52 := by
  have hn : n < 2 ^ 52 := by omega
  rw [units, if_pos hn, Nat.mod_eq_of_lt hn]

theorem units_of_succ {n e : Nat} (h : n / 2 ^ 52 = e + 1) : units n = (2 ^ 52 + n % 2 ^ 52) * 2 ^ e := by
  have hn : ¬n < 2 ^ 52 := by omega
  rw [units, if_neg hn, h, Nat.add_sub_cancel]

theorem units_zero : units 0 = 0 := rfl

theorem units_lt_succ (n : Nat) : units n < units (n + 1) := by
  cases he : n / 2 ^ 52 with
  | zero =>
    rw [units_of_zero he]
    by_cases hfull : n % 2 ^ 52 + 1 < 2 ^ 52
    · rw [units_of_zero (by omega)]
      omega
    · rw [units_of_succ (by omega : (n + 1) / 2 ^ 52 = 0 + 1)]
      omega
  | succ e =>
    rw [units_of_succ he]
    by_cases hfull : n % 2 ^ 52 + 1 < 2 ^ 52
    · rw [units_of_succ (by omega : (n + 1) / 2 ^ 52 = e + 1)]
      exact Nat.mul_lt_mul_of_pos_right (by omega) (by positivity)
    · -- the fraction is full, so it starts again and the exponent grows
      have hmod : (n + 1) % 2 ^ 52 = 0 := by omega
      rw [units_of_succ (by omega : (n + 1) / 2 ^ 52 = (e + 1) + 1), hmod]
      calc (2 ^ 52 + n % 2 ^ 52) * 2 ^ e < 2 ^ 53 * 2 ^ e :=
            Nat.mul_lt_mul_of_pos_right (by omega) (by positivity)
        _ = (2 ^ 52 + 0) * 2 ^ (e + 1) := by ring

theorem strictMono_units : StrictMono units :=
  strictMono_nat_of_lt_succ units_lt_succ

def signedUnits (n : Int) : Int :=
  if n < 0 then -(units n.natAbs : Int) else units n.natAbs

theorem signedUnits_natCast (n : Nat) : signedUnits n = units n := by
  rw [signedUnits, if_neg (by omega), Int.natAbs_natCast]

theorem signedUnits_neg (n : Nat) : signedUnits (-n) = -units n := by
  unfold signedUnits
  rw [Int.natAbs_neg, Int.natAbs_natCast]
  split
  next => rfl
  next h =>
    obtain rfl : n = 0 := by omega
    rfl

theorem strictMono_signedUnits : StrictMono signedUnits := by
  intro a b hab
  unfold signedUnits
  split
  next ha =>
    have hpos : units 0 < units a.natAbs := strictMono_units (by omega)
    rw [units_zero] at hpos
    split
    next hb =>
      have hlt : units b.natAbs < units a.natAbs := strictMono_units (by omega)
      omega
    next hb => omega
  next ha =>
    rw [if_neg (by omega)]
    exact_mod_cast strictMono_units (by omega : a.natAbs < b.natAbs)

/-- Bits denote the number that their magnitude and their sign tell, unless the exponent is the
largest. -/
theorem number?_ofBits (bits : UInt64) :
    (ofBits bits).number? = if exponentBits bits = 2047 then none else
      some ((if signBit bits then -1 else 1 : ℚ) * units (bits.toNat % 2 ^ 63) * smallest) := by
  have hexponent : exponentBits bits = bits.toNat % 2 ^ 63 / 2 ^ 52 := by
    simp only [exponentBits, Nat.pow_eq]
    omega
  have hfraction : fractionBits bits = bits.toNat % 2 ^ 63 % 2 ^ 52 := by
    simp only [fractionBits, Nat.pow_eq]
    omega
  unfold ofBits
  generalize bits.toNat % 2 ^ 63 = n at hexponent hfraction
  dsimp only
  split
  next hzero =>
    rw [units_of_zero (hexponent.symm.trans hzero), ← hfraction, hzero, if_neg (by decide)]
    rfl
  -- the largest exponent is left for what is no number
  next hmax =>
    rw [if_pos hmax]
    split <;> rfl
  next e hmax he =>
    have hpower : ((e + 1 : Nat) : Int) - 1075 = e + -1074 := by omega
    rw [if_neg fun h => hmax (Nat.succ.inj (he.symm.trans h)), units_of_succ (hexponent.symm.trans he),
      ← hfraction, number?, hpower, zpow_add₀ (by decide), zpow_natCast, ← smallest]
    push_cast [Nat.pow_eq]
    exact congrArg some (by ring)

theorem smallest_pos : 0 < smallest :=
  zpow_pos (by decide) _

end Binary64

/-! ## Keys -/

namespace SequenceKey

open Binary64

def number (k : SequenceKey) : ℚ :=
  (Binary64.ofFloat k.value).number?.getD 0

theorem isFinite_iff {x : Float} : isFinite x = true ↔ exponentBits x.toBits ≠ 2047 := by
  have hnumber : isFinite x = (Binary64.ofFloat x).number?.isSome := by
    unfold isFinite
    cases Binary64.ofFloat x <;> rfl
  rw [hnumber, Binary64.ofFloat, number?_ofBits]
  split
  next h => simp [h]
  next h => simp [h]

/-- What a finite double denotes, by its bits. -/
theorem number?_of_isFinite {x : Float} (h : isFinite x = true) :
    (Binary64.ofFloat x).number? =
      some ((if signBit x.toBits then -1 else 1 : ℚ) * units (x.toBits.toNat % 2 ^ 63) * smallest) := by
  rw [Binary64.ofFloat, number?_ofBits, if_neg (isFinite_iff.1 h)]

theorem rank_eq (k : SequenceKey) :
    k.rank = if signBit k.value.toBits then -((k.value.toBits.toNat % 2 ^ 63 : Nat) : Int)
      else (k.value.toBits.toNat % 2 ^ 63 : Nat) := rfl

theorem number_eq (k : SequenceKey) : k.number = signedUnits k.rank * smallest := by
  rw [number, number?_of_isFinite k.finite, Option.getD_some]
  rw [rank_eq]
  split
  · rw [signedUnits_neg]
    push_cast
    ring
  · rw [signedUnits_natCast]
    push_cast
    ring

theorem strictMono_ofRank : StrictMono fun r : Int => (signedUnits r : ℚ) * smallest :=
  fun _ _ h => mul_lt_mul_of_pos_right (Int.cast_lt.2 (strictMono_signedUnits h)) smallest_pos

theorem number_lt_iff {a b : SequenceKey} : a.number < b.number ↔ a < b := by
  rw [number_eq, number_eq]
  exact strictMono_ofRank.lt_iff_lt

theorem number_injective {a b : SequenceKey} (h : a.number = b.number) : a = b := by
  rw [number_eq, number_eq] at h
  exact rank_injective (strictMono_ofRank.injective h)

/-- What grows with the rank compares as keys do. -/
theorem compare_of_strictMono {α : Type} [LinearOrder α] {f : Int → α} (hf : StrictMono f)
    (a b : SequenceKey) :
    compare a b = compare (f a.rank) (f b.rank) := by
  have hrank : compare a b = compare a.rank b.rank := rfl
  rw [hrank, ← cmp_eq_compare, ← cmp_eq_compare]
  exact (hf.cmp_map_eq a.rank b.rank).symm

theorem compare_number (a b : SequenceKey) : compare a b = compare a.number b.number := by
  rw [number_eq, number_eq]
  exact compare_of_strictMono strictMono_ofRank a b

/-! ## Making keys -/

theorem number_zero : zero.number = 0 := by
  have hmagnitude : zero.value.toBits.toNat % 2 ^ 63 = 0 := by decide
  rw [number, number?_of_isFinite zero.finite, Option.getD_some, hmagnitude, units_zero, Nat.cast_zero,
    mul_zero, zero_mul]

/-- A key has the number of the double it is made from; what is not finite makes none. -/
theorem number_ofFloat? (x : Float) : (ofFloat? x).map number = (Binary64.ofFloat x).number? := by
  by_cases hx : isFinite x = true
  · obtain ⟨key, hkey⟩ := exists_ofFloat?.2 hx
    rw [hkey, Option.map_some, number, (ofFloat?_eq_some_iff.1 hkey).2, unsignedZero]
    split
    next hz =>
      have hminus : (0x8000000000000000 : UInt64).toNat % 2 ^ 63 = 0 := rfl
      rw [number?_of_isFinite hx, hz, hminus, units_zero, Nat.cast_zero, mul_zero, zero_mul]
      exact congrArg some number_zero
    next hz => rw [number?_of_isFinite hx, Option.getD_some]
  · have hnone : ofFloat? x = none :=
      Option.eq_none_iff_forall_ne_some.2 fun key hkey => hx (exists_ofFloat?.1 ⟨key, hkey⟩)
    rw [isFinite_iff, not_not] at hx
    rw [hnone, Binary64.ofFloat, number?_ofBits, if_pos hx]
    rfl

theorem ofFloat?_eq_iff {x y : Float} :
    ofFloat? x = ofFloat? y ↔ (Binary64.ofFloat x).number? = (Binary64.ofFloat y).number? := by
  rw [← number_ofFloat?, ← number_ofFloat?]
  exact (Option.map_injective fun _ _ => number_injective).eq_iff.symm

/-! ## Bits in place of numbers -/

/-- Bits as a signed number, all but the sign flipped if it is negative. -/
def place (bits : UInt64) : Int :=
  (bits.toBitVec ^^^ (bits.toBitVec.sshiftRight 63 >>> 1)).toInt

theorem signBit_eq_msb (bits : UInt64) : signBit bits = bits.toBitVec.msb := by
  have hlt := bits.toNat_lt
  rw [BitVec.msb_eq_decide, UInt64.toNat_toBitVec]
  unfold signBit
  rw [Bool.eq_iff_iff, beq_iff_eq, decide_eq_true_iff, Nat.pow_eq]
  omega

theorem place_of_unsigned {bits : UInt64} (h : signBit bits = false) :
    place bits = (bits.toNat % 2 ^ 63 : Nat) := by
  rw [signBit_eq_msb] at h
  have hsmall : bits.toNat < 2 ^ 63 := by simpa [BitVec.msb_eq_decide] using h
  have hmask : bits.toBitVec.sshiftRight 63 = 0#64 := by
    refine BitVec.eq_of_toNat_eq ?_
    rw [BitVec.sshiftRight_eq_of_msb_false h, BitVec.toNat_ushiftRight, Nat.shiftRight_eq_div_pow]
    exact Nat.div_eq_of_lt hsmall
  rw [place, hmask, BitVec.zero_ushiftRight, BitVec.xor_zero, BitVec.toInt_eq_toNat_cond,
    UInt64.toNat_toBitVec, if_pos (by omega), Nat.mod_eq_of_lt hsmall]

theorem place_of_signed {bits : UInt64} (h : signBit bits = true) :
    place bits = -1 - ((bits.toNat % 2 ^ 63 : Nat) : Int) := by
  rw [signBit_eq_msb] at h
  have hlt := bits.toNat_lt
  have hlarge : 2 ^ 63 ≤ bits.toNat := by simpa [BitVec.msb_eq_decide] using h
  have hmask : bits.toBitVec.sshiftRight 63 >>> 1 = BitVec.cons false (BitVec.allOnes 63) := by
    have hzero : ~~~bits.toBitVec >>> 63 = 0#64 := by
      refine BitVec.eq_of_toNat_eq ?_
      rw [BitVec.toNat_ushiftRight, BitVec.toNat_not, UInt64.toNat_toBitVec, Nat.shiftRight_eq_div_pow]
      exact Nat.div_eq_of_lt (by omega)
    rw [BitVec.sshiftRight_eq_of_msb_true h, hzero]
    decide
  have hxor : bits.toBitVec ^^^ BitVec.cons false (BitVec.allOnes 63) =
      BitVec.cons true (~~~bits.toBitVec.setWidth 63) := by
    conv_lhs => rw [← BitVec.cons_msb_setWidth bits.toBitVec, h]
    rw [BitVec.cons_xor_cons, BitVec.xor_allOnes]
    rfl
  have hvalue : (BitVec.cons true (~~~bits.toBitVec.setWidth 63)).toNat =
      2 ^ 63 + (2 ^ 63 - 1 - bits.toNat % 2 ^ 63) := by
    rw [BitVec.toNat_cons', BitVec.toNat_not, BitVec.toNat_setWidth, UInt64.toNat_toBitVec]
    rfl
  rw [place, hmask, hxor, BitVec.toInt_eq_toNat_cond, hvalue, if_neg (by omega)]
  omega

/-- The place of a key is its rank, or one less below zero, where the bits of the negative zero come
first. -/
theorem place_eq (k : SequenceKey) : place k.value.toBits = if k.rank < 0 then k.rank - 1 else k.rank := by
  have hzero := k.not_negative_zero
  rw [Ne, ← UInt64.toNat_inj] at hzero
  have hlt := k.value.toBits.toNat_lt
  have hminus : (0x8000000000000000 : UInt64).toNat = 2 ^ 63 := rfl
  rw [hminus] at hzero
  by_cases hsign : signBit k.value.toBits = true
  · have hbit : 2 ^ 63 ≤ k.value.toBits.toNat := by
      rw [signBit, beq_iff_eq, Nat.pow_eq] at hsign
      omega
    rw [place_of_signed hsign, rank_eq, if_pos hsign, if_pos (by omega)]
    omega
  · rw [place_of_unsigned (Bool.eq_false_iff.2 hsign), rank_eq, if_neg hsign, if_neg (by omega)]

theorem compare_place (a b : SequenceKey) :
    compare a b = compare (place a.value.toBits) (place b.value.toBits) := by
  have hmono : StrictMono fun r : Int => if r < 0 then r - 1 else r := by
    intro r r' h
    dsimp only
    split <;> split <;> omega
  rw [place_eq, place_eq]
  exact compare_of_strictMono hmono a b

end SequenceKey

/-! ## Merging by number -/

namespace ActionList

def actionAt? (l : ActionList) (number : ℚ) (path : String) : Option Action :=
  l.reverse.findSome? fun e => if e.key.number = number then e.actions.get? path else none

theorem actionAt?_number (l : ActionList) (key : SequenceKey) (path : String) :
    actionAt? l key.number path = action? l key path := by
  unfold actionAt? action?
  have hnumber (e : ActionEntry) : e.key.number = key.number ↔ e.key = key :=
    ⟨SequenceKey.number_injective, fun h => h ▸ rfl⟩
  simp only [hnumber]

/-- A merged list has the numbers of all lists, each once and in ascending order, and under each the
actions given last under keys of that number. -/
theorem merge_numbers {ls : List ActionList} {m : ActionList} (h : merge ls = some m) :
    m.Pairwise (fun e f => e.key.number < f.key.number) ∧
      (∀ q, (∃ e ∈ m, e.key.number = q) ↔ ∃ l ∈ ls, ∃ e ∈ l, e.key.number = q) ∧
      ∀ e ∈ m, ∀ path, e.actions.get? path = actionAt? ls.flatten e.key.number path := by
  have hmerge := isMergeOf_merge h
  refine ⟨hmerge.ascending.imp SequenceKey.number_lt_iff.2, fun q => ?_, fun e he path => ?_⟩
  · have numbers (l : ActionList) : (∃ e ∈ l, e.key.number = q) ↔ ∃ key ∈ keys l, key.number = q := by
      simp only [keys, List.mem_map, exists_exists_and_eq_and]
    simp only [numbers, hmerge.keys, mem_keys_flatten]
    constructor
    · rintro ⟨key, ⟨l, hl, hkey⟩, hq⟩
      exact ⟨l, hl, key, hkey, hq⟩
    · rintro ⟨l, hl, key, hkey, hq⟩
      exact ⟨key, ⟨l, hl, hkey⟩, hq⟩
  · rw [actionAt?_number, ← hmerge.actions, (hmerge.ascending.mem_iff.1 he).2]

end ActionList

/-- Keys compare as the exact numbers they denote, which is how their bits compare as signed numbers
with all but the sign flipped below zero. They are the same key, with the same bits, exactly if they
are the same number. A key made from a double or read from a text has its number, so both zeros make
one key. Merging groups entries by number. -/
theorem SequenceKey.numeric_order (a b : SequenceKey) (x y : Float) (s : String) (ls : List ActionList) :
    (compare a b = compare a.number b.number ∧
      compare a b = compare (place a.value.toBits) (place b.value.toBits) ∧
      (a < b ↔ a.number < b.number) ∧
      (compare a b = .eq ↔ a.number = b.number) ∧
      (a = b ↔ a.number = b.number) ∧
      (a.value.toBits = b.value.toBits ↔ a.number = b.number)) ∧
    ((ofFloat? x).map number = (Binary64.ofFloat x).number? ∧
      (ofText? s).map number =
        (readFloatChars? (trim s.toList)).bind (fun x => (Binary64.ofFloat x).number?) ∧
      (ofFloat? x = ofFloat? y ↔ (Binary64.ofFloat x).number? = (Binary64.ofFloat y).number?) ∧
      ofFloat? a.value = some a) ∧
    ∀ m, ActionList.merge ls = some m →
      m.Pairwise (fun e f => e.key.number < f.key.number) ∧
      (∀ q, (∃ e ∈ m, e.key.number = q) ↔ ∃ l ∈ ls, ∃ e ∈ l, e.key.number = q) ∧
      ∀ e ∈ m, ∀ path, e.actions.get? path = ActionList.actionAt? ls.flatten e.key.number path := by
  have same {a b : SequenceKey} : a = b ↔ a.number = b.number := ⟨congrArg number, number_injective⟩
  refine ⟨⟨compare_number a b, compare_place a b, number_lt_iff.symm, ?_, same, ?_⟩, ⟨number_ofFloat? x, ?_,
    ofFloat?_eq_iff, ?_⟩, fun m hm => ActionList.merge_numbers hm⟩
  · rw [compare_number a b, compare_eq_iff_eq]
  · rw [← same]
    exact ⟨toBits_injective, fun h => h ▸ rfl⟩
  · unfold ofText?
    rw [Option.map_bind]
    exact congrArg _ (funext number_ofFloat?)
  · rw [ofFloat?, dif_pos a.finite, dif_pos a.not_negative_zero]

end UpdaterBootstrap
