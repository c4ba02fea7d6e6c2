import UpdaterBootstrap.Proofs.Rounding

/-!
# The bits of a double

A finite double that is not zero is what its sign, its mantissa and its exponent are packed to
(`Binary64.eq_packed`), and they are unpacked from it (`Binary64.unpack_pack`).
-/

namespace UpdaterBootstrap

namespace Binary64

open Float.Model Float.Model.UnpackedFloat

theorem eq_of_toBits {x y : Float} (h : x.toBits = y.toBits) : x = y := by
  obtain ⟨⟨b, hb⟩⟩ := x
  obtain ⟨⟨b', hb'⟩⟩ := y
  obtain rfl : b = b' := h
  rfl

def signOf (negative : Bool) : Sign :=
  if negative then .negative else .positive

def bitsOf (negative : Bool) (m : Nat) (e : Int) : Nat :=
  (if negative then 2 ^ 63 else 0) + if 2 ^ 52 ≤ m then (e + 1075).toNat * 2 ^ 52 + (m - 2 ^ 52) else m

theorem toNat_bits (bits : UInt64) :
    bits.toNat = (if signBit bits then 2 ^ 63 else 0) + exponentBits bits * 2 ^ 52 + fractionBits bits := by
  have := bits.toNat_lt
  unfold signBit exponentBits fractionBits
  simp only [Nat.pow_eq, beq_iff_eq]
  split <;> omega

theorem finite_of_ofBits {bits : UInt64} {negative : Bool} {m : Nat} {e : Int}
    (h : ofBits bits = .finite negative m e) :
    IsCanonical m e ∧ e ≤ 971 ∧ bits.toNat = bitsOf negative m e := by
  have hexponent : exponentBits bits < 2 ^ 11 := Nat.mod_lt _ (by decide)
  have hfraction : fractionBits bits < 2 ^ 52 := Nat.mod_lt _ (by decide)
  rw [toNat_bits bits]
  unfold ofBits at h
  dsimp only at h
  split at h
  next hzero =>
    obtain ⟨rfl, rfl, rfl⟩ := Binary64.finite.inj h
    refine ⟨⟨by omega, le_rfl, .inr rfl⟩, by decide, ?_⟩
    rw [bitsOf, if_neg (show ¬2 ^ 52 ≤ fractionBits bits by omega), hzero]
    omega
  next => split at h <;> cases h
  next k hmax hk =>
    obtain ⟨rfl, rfl, rfl⟩ := Binary64.finite.inj h
    have hne : k ≠ 2046 := hmax
    simp only [Nat.pow_eq]
    refine ⟨⟨by omega, by omega, .inl (by omega)⟩, by omega, ?_⟩
    rw [bitsOf, if_pos (show 2 ^ 52 ≤ 2 ^ 52 + fractionBits bits by omega), hk]
    omega

/-! ## Components -/

section

variable (spec : Format) (s : Sign) (exponent : BitVec spec.exponentBits)
  (mantissa : BitVec spec.mantissaBitsWithoutImplicit)

theorem unpackSign_packComponents :
    Sign.ofBitVec (unpackSign (packComponents spec s exponent mantissa)) = s := by
  have hsign : unpackSign (packComponents spec s exponent mantissa) = s.toBitVec := by
    apply BitVec.eq_of_getLsbD_eq
    intro i hi
    obtain rfl : i = 0 := by omega
    simp [unpackSign, packComponents, BitVec.getLsbD_append, BitVec.getElem_append]
  rw [hsign]
  cases s <;> rfl

theorem unpack_normal (hmax : exponent ≠ -1#_) (hzero : exponent ≠ 0#_) : ∃ h,
    UnpackedFloat.unpack spec (packComponents spec s exponent mantissa) =
      .finite s (2 ^ spec.mantissaBitsWithoutImplicit + mantissa.toNat)
        (exponent.toNat - (spec.exponentBias + spec.mantissaBitsWithoutImplicit)) h := by
  have hmantissa : (1#1 ++ mantissa).toNat = 2 ^ spec.mantissaBitsWithoutImplicit + mantissa.toNat := by
    rw [BitVec.toNat_append, ← Nat.shiftLeft_add_eq_or_of_lt mantissa.isLt, Nat.shiftLeft_eq]
    simp
  refine ⟨by positivity, ?_⟩
  unfold UnpackedFloat.unpack
  simp only [unpackMantissa_packComponents, unpackExponent_packComponents, unpackSign_packComponents,
    hmax, hzero, if_false, hmantissa]

theorem unpack_subnormal (hmax : (0#_ : BitVec spec.exponentBits) ≠ -1#_) (hzero : mantissa ≠ 0#_) : ∃ h,
    UnpackedFloat.unpack spec (packComponents spec s 0#_ mantissa) =
      .finite s mantissa.toNat (1 - (spec.exponentBias + spec.mantissaBitsWithoutImplicit)) h := by
  refine ⟨Nat.pos_of_ne_zero fun heq => hzero (BitVec.eq_of_toNat_eq (by simpa using heq)), ?_⟩
  unfold UnpackedFloat.unpack
  simp only [unpackMantissa_packComponents, unpackExponent_packComponents, unpackSign_packComponents,
    hmax, hzero, if_false, if_true, dif_neg not_false, BitVec.toNat_ofNat, Nat.zero_mod, Nat.cast_zero]
  congr 1
  ring

end

theorem toNat_packComponents (s : Sign) (exponent : BitVec 11) (mantissa : BitVec 52) :
    (packComponents .binary64 s exponent mantissa).toNat =
      s.toBitVec.toNat * 2 ^ 63 + exponent.toNat * 2 ^ 52 + mantissa.toNat := by
  unfold packComponents
  rw [BitVec.toNat_append, BitVec.toNat_append, ← Nat.shiftLeft_add_eq_or_of_lt mantissa.isLt,
    ← Nat.shiftLeft_add_eq_or_of_lt exponent.isLt, Nat.shiftLeft_eq, Nat.shiftLeft_eq]
  ring

section

variable {m : Nat} {e : Int} (hc : IsCanonical m e) (he : e ≤ 971) (hm : 0 < m)
include hc he

/-- How a canonical mantissa with its exponent is packed. -/
theorem pack_eq (sign : Sign) :
    UnpackedFloat.pack .binary64 (.finite sign m e hm) =
      packComponents .binary64 sign (if 2 ^ 52 ≤ m then .ofNat 11 (e + 1075).toNat else 0#11)
        (.ofNat 52 m) := by
  have hbias : (e + Format.binary64.exponentBias + Format.binary64.mantissaBitsWithoutImplicit).toNat =
      (e + 1075).toNat := by
    change (e + 1023 + 52).toNat = _
    omega
  have hleast := hc.least
  unfold UnpackedFloat.pack
  dsimp only
  rw [hbias, if_neg (by omega)]
  by_cases hfull : 2 ^ 52 ≤ m
  · have hlow : 52 ≤ m.log2 := (Nat.le_log2 hm.ne').2 hfull
    have hhigh : m.log2 < 53 := (Nat.log2_lt hm.ne').2 hc.bound
    have hlog : m.log2 + 1 = Format.binary64.mantissaBits := by
      change m.log2 + 1 = 53
      omega
    rw [if_pos hlog, if_pos hfull]
  · have hhigh : m.log2 < 52 := (Nat.log2_lt hm.ne').2 (Nat.lt_of_not_le hfull)
    have hlog : ¬ m.log2 + 1 = Format.binary64.mantissaBits := by
      change ¬ m.log2 + 1 = 53
      omega
    rw [if_neg hlog, if_neg hfull]

theorem toNat_pack (negative : Bool) :
    (UnpackedFloat.pack .binary64 (.finite (signOf negative) m e hm)).toNat = bitsOf negative m e := by
  have hleast := hc.least
  have hbound := hc.bound
  have hsign : (signOf negative).toBitVec.toNat * 2 ^ 63 = if negative then 2 ^ 63 else 0 := by
    cases negative <;> rfl
  rw [pack_eq hc he hm, toNat_packComponents, hsign, bitsOf, BitVec.toNat_ofNat]
  by_cases hfull : 2 ^ 52 ≤ m
  · rw [if_pos hfull, if_pos hfull, BitVec.toNat_ofNat,
      Nat.mod_eq_of_lt (by omega : (e + 1075).toNat < 2 ^ 11)]
    omega
  · rw [if_neg hfull, if_neg hfull, BitVec.toNat_ofNat]
    omega

theorem unpack_pack (sign : Sign) :
    UnpackedFloat.unpack .binary64 (UnpackedFloat.pack .binary64 (.finite sign m e hm)) =
      .finite sign m e hm := by
  have hleast := hc.least
  have hbound := hc.bound
  rw [pack_eq hc he hm]
  by_cases hfull : 2 ^ 52 ≤ m
  · have hexponent : (BitVec.ofNat 11 (e + 1075).toNat).toNat = (e + 1075).toNat := by
      rw [BitVec.toNat_ofNat, Nat.mod_eq_of_lt (by omega)]
    -- with 53 bits the stored exponent is neither the largest nor zero
    have hmax : BitVec.ofNat 11 (e + 1075).toNat ≠ -1#11 := fun heq => by
      have := congrArg BitVec.toNat heq
      rw [hexponent, (by decide : (-1#11 : BitVec 11).toNat = 2047)] at this
      omega
    have hzero : BitVec.ofNat 11 (e + 1075).toNat ≠ 0#11 := fun heq => by
      have := congrArg BitVec.toNat heq
      rw [hexponent, BitVec.toNat_zero] at this
      omega
    obtain ⟨h, hunpack⟩ := unpack_normal .binary64 sign (.ofNat 11 (e + 1075).toNat) (.ofNat 52 m) hmax hzero
    rw [if_pos hfull, hunpack]
    congr 1
    · rw [BitVec.toNat_ofNat]
      change 2 ^ 52 + m % 2 ^ 52 = m
      omega
    · rw [hexponent]
      change ((e + 1075).toNat : Int) - (1023 + 52) = e
      omega
  -- with fewer the exponent is the least, and it is stored as zero
  · have hmantissa : (BitVec.ofNat 52 m).toNat = m := by
      rw [BitVec.toNat_ofNat, Nat.mod_eq_of_lt (by omega)]
    have hzero : BitVec.ofNat 52 m ≠ 0#52 := fun heq => by
      have := congrArg BitVec.toNat heq
      rw [hmantissa, BitVec.toNat_zero] at this
      omega
    obtain ⟨h, hunpack⟩ := unpack_subnormal .binary64 sign (.ofNat 52 m) (by decide) hzero
    rw [if_neg hfull, hunpack]
    congr 1
    exact (hc.full.resolve_left hfull).symm

end

/-! ## Doubles -/

def packed (negative : Bool) (m : Nat) (e : Int) (hm : 0 < m) : Float :=
  .ofModel (.pack (.finite (signOf negative) m e hm))

theorem unpack_packed {negative : Bool} {m : Nat} {e : Int} (hc : IsCanonical m e) (he : e ≤ 971)
    (hm : 0 < m) :
    (packed negative m e hm).toModel.unpack = .finite (signOf negative) m e hm :=
  unpack_pack hc he hm (signOf negative)

theorem neg_packed {m : Nat} {e : Int} (hc : IsCanonical m e) (he : e ≤ 971) (hm : 0 < m) :
    -packed false m e hm = packed true m e hm := by
  change Float.ofModel (.pack (packed false m e hm).toModel.unpack.neg) = _
  rw [unpack_packed hc he hm]
  rfl

/-- A finite double other than zero is packed from its parts. -/
theorem eq_packed {x : Float} {negative : Bool} {m : Nat} {e : Int} (h : ofFloat x = .finite negative m e)
    (hm : 0 < m) : x = packed negative m e hm := by
  obtain ⟨hc, he, hbits⟩ := finite_of_ofBits h
  apply eq_of_toBits
  apply UInt64.toNat_inj.1
  rw [hbits]
  exact (toNat_pack hc he hm negative).symm

theorem eq_zero {x : Float} {negative : Bool} {e : Int} (h : ofFloat x = .finite negative 0 e) :
    x = if negative then -0.0 else 0.0 := by
  obtain ⟨-, -, hbits⟩ := finite_of_ofBits h
  apply eq_of_toBits
  apply UInt64.toNat_inj.1
  rw [hbits, bitsOf, if_neg (by decide : ¬2 ^ 52 ≤ 0)]
  cases negative <;> decide

theorem exponentBits_of_ofBits {bits : UInt64} (h : ∀ negative m e, ofBits bits ≠ .finite negative m e) :
    exponentBits bits = 2047 := by
  unfold ofBits at h
  dsimp only at h
  split at h
  next => exact absurd rfl (h _ _ _)
  next hmax => exact hmax
  next => exact absurd rfl (h _ _ _)

theorem isFinite_packed {negative : Bool} {m : Nat} {e : Int} (hc : IsCanonical m e) (he : e ≤ 971)
    (hm : 0 < m) :
    isFinite (packed negative m e hm) = true := by
  have hbits : (packed negative m e hm).toBits.toNat = bitsOf negative m e := toNat_pack hc he hm negative
  have hbound := hc.bound
  have hleast := hc.least
  have hmax : exponentBits (packed negative m e hm).toBits ≠ 2047 := by
    unfold exponentBits
    rw [hbits, bitsOf]
    simp only [Nat.pow_eq]
    split <;> split <;> omega
  by_contra hfinite
  apply hmax
  apply exponentBits_of_ofBits
  intro _ _ _ heq
  exact hfinite (by rw [isFinite, ofFloat, heq])

theorem ofBits_of_max {bits : UInt64} (h : exponentBits bits = 2047) :
    ofBits bits = if fractionBits bits = 0 then .infinite (signBit bits) else .nan := by
  unfold ofBits
  rw [h]
  rfl

theorem eq_of_infinite {x : Float} {negative : Bool} (h : ofFloat x = .infinite negative) :
    x = if negative then -(1.0 / 0.0) else 1.0 / 0.0 := by
  have hmax : exponentBits x.toBits = 2047 := by
    apply exponentBits_of_ofBits
    intro _ _ _ heq
    cases h.symm.trans heq
  rw [ofFloat, ofBits_of_max hmax] at h
  by_cases hzero : fractionBits x.toBits = 0
  · rw [if_pos hzero] at h
    apply eq_of_toBits
    apply UInt64.toNat_inj.1
    rw [toNat_bits x.toBits, hmax, hzero, Binary64.infinite.inj h]
    cases negative <;> decide
  · rw [if_neg hzero] at h
    cases h

theorem toNat_unpackExponent (b : BitVec Format.binary64.numBits) :
    (unpackExponent b).toNat = b.toNat / 2 ^ 52 % 2 ^ 11 := by
  unfold unpackExponent
  rw [BitVec.toNat_cast, BitVec.extractLsb_toNat, Nat.shiftRight_eq_div_pow]
  rfl

theorem toNat_unpackMantissa (b : BitVec Format.binary64.numBits) :
    (unpackMantissa b).toNat = b.toNat % 2 ^ 52 := by
  unfold unpackMantissa
  rw [BitVec.toNat_cast, BitVec.extractLsb_toNat, Nat.shiftRight_zero]
  rfl

theorem eq_of_nan {x : Float} (h : ofFloat x = .nan) : x = 0.0 / 0.0 := by
  have hmax : exponentBits x.toBits = 2047 := by
    apply exponentBits_of_ofBits
    intro _ _ _ heq
    cases h.symm.trans heq
  have hfraction : fractionBits x.toBits ≠ 0 := fun hzero => by
    rw [ofFloat, ofBits_of_max hmax, if_pos hzero] at h
    cases h
  have hexponent : unpackExponent (show BitVec Format.binary64.numBits from x.toBits.toBitVec) = -1#_ := by
    apply BitVec.eq_of_toNat_eq
    rw [toNat_unpackExponent]
    exact hmax
  have hmantissa : unpackMantissa (show BitVec Format.binary64.numBits from x.toBits.toBitVec) ≠ 0#_ :=
    fun heq => by
    apply hfraction
    have := congrArg BitVec.toNat heq
    rw [toNat_unpackMantissa] at this
    exact this
  -- a double has only one pattern that is no number
  have hvalid := x.toModel.valid.eq_packedNaN hexponent hmantissa
  apply eq_of_toBits
  apply UInt64.toBitVec_inj.1
  exact hvalid.trans (by decide)

end Binary64

end UpdaterBootstrap
