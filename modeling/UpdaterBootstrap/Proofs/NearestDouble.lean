import UpdaterBootstrap.Decimal.Read
import UpdaterBootstrap.Proofs.PackedDouble

/-!
# Decimals as doubles

A decimal in the interval of a double is made that double (`Binary64.ofScientific_eq`). Small
decimals are the quotient or the product of two doubles that are exact, and the others are divided
or multiplied before they are rounded; either way the number is rounded once.
-/

namespace UpdaterBootstrap

namespace Binary64

open Float.Model Float.Model.UnpackedFloat

/-! ## Products and quotients -/

theorem le_target_of_full {mantissa : Nat} (h : 2 ^ 52 ≤ mantissa) (exponent : Int) :
    exponent ≤ Format.binary64.targetExponent (totalExponent mantissa exponent) := by
  have hlog : 52 ≤ mantissa.log2 := (Nat.le_log2 (by omega)).2 h
  rw [targetExponent_eq, totalExponent]
  omega

section

variable {m : Nat} {e : Int} (hc : IsCanonical m e) (hm : 0 < m) {m₁ m₂ : Nat} {e₁ e₂ : Int}
  (h₁ : 0 < m₁) (h₂ : 0 < m₂)
include hc

theorem mul_eq (h : Rounds m e (m₁ * 2 ^ e₁ * (m₂ * 2 ^ e₂))) (hfull : 2 ^ 52 ≤ m₁ * m₂)
    (s₁ s₂ : Sign) :
    UnpackedFloat.mul .binary64 (.finite s₁ m₁ e₁ h₁) (.finite s₂ m₂ e₂ h₂) =
      .finite (s₁ * s₂) m e hm := by
  have hq : (m₁ * 2 ^ e₁ * (m₂ * 2 ^ e₂) : ℚ) / 2 ^ (e₁ + e₂) = (m₁ * m₂ : Nat) := by
    rw [zpow_add₀ two_ne_zero]
    push_cast
    field_simp
  refine roundWithAccuracy_eq hc h hm (s₁ * s₂) ?_ (le_target_of_full hfull _)
  rw [hq]
  exact shows_exact _

theorem div_eq (h : Rounds m e (m₁ * 2 ^ e₁ / (m₂ * 2 ^ e₂))) (s₁ s₂ : Sign) :
    UnpackedFloat.div .binary64 (.finite s₁ m₁ e₁ h₁) (.finite s₂ m₂ e₂ h₂) =
      .finite (s₁ / s₂) m e hm := by
  let target :=
    min (e₁ - e₂) (Format.binary64.targetExponent (totalExponent m₁ e₁ - totalExponent m₂ e₂))
  let shift := (e₁ - e₂ - target).toNat
  have hshift : (shift : Int) = e₁ - e₂ - target := by omega
  have hq : (m₁ * 2 ^ e₁ / (m₂ * 2 ^ e₂) : ℚ) / 2 ^ target = (m₁ <<< shift : Nat) / m₂ := by
    have hpower : (2 : ℚ) ^ e₁ = 2 ^ shift * 2 ^ e₂ * 2 ^ target := by
      rw [← zpow_natCast, ← zpow_add₀ two_ne_zero, ← zpow_add₀ two_ne_zero, hshift]
      congr 1
      ring
    have : (m₂ : ℚ) ≠ 0 := by exact_mod_cast h₂.ne'
    rw [Nat.shiftLeft_eq, hpower]
    push_cast
    field_simp
  -- the dividend is shifted so far that the quotient has the bits of a mantissa
  have hexponent : target ≤ Format.binary64.targetExponent (totalExponent (m₁ <<< shift / m₂) target) := by
    by_cases hleast : target ≤ -1074
    · rw [targetExponent_eq]
      omega
    · apply le_target_of_full
      have htarget : target ≤ Format.binary64.targetExponent
          (totalExponent m₁ e₁ - totalExponent m₂ e₂) :=
        min_le_right _ _
      rw [targetExponent_eq, totalExponent, totalExponent] at htarget
      have hlog : m₂.log2 + 53 ≤ m₁.log2 + shift := by omega
      rw [Nat.le_div_iff_mul_le h₂, Nat.shiftLeft_eq]
      calc 2 ^ 52 * m₂ ≤ 2 ^ 52 * 2 ^ (m₂.log2 + 1) := Nat.mul_le_mul_left _ Nat.lt_log2_self.le
        _ = 2 ^ (m₂.log2 + 53) := by rw [← Nat.pow_add]; congr 1; omega
        _ ≤ 2 ^ (m₁.log2 + shift) := Nat.pow_le_pow_right two_pos hlog
        _ = 2 ^ m₁.log2 * 2 ^ shift := Nat.pow_add ..
        _ ≤ m₁ * 2 ^ shift := Nat.mul_le_mul_right _ (Nat.log2_self_le h₁.ne')
  refine roundWithAccuracy_eq hc h hm (s₁ / s₂) ?_ hexponent
  rw [hq]
  exact shows_quotient _ h₂

end

/-! ## Doubles that are exact -/

theorem lowEnd_lt (m : Nat) (e : Int) : lowEnd m e < m * 2 ^ e := by
  have : (0 : ℚ) < 2 ^ e := by positivity
  unfold lowEnd
  split <;> gcongr <;> norm_num

theorem lt_highEnd (m : Nat) (e : Int) : (m * 2 ^ e : ℚ) < highEnd m e := by
  have : (0 : ℚ) < 2 ^ e := by positivity
  unfold highEnd
  gcongr
  norm_num

theorem rounds_of_lt {m : Nat} {e : Int} {q : ℚ} (hlow : lowEnd m e < q) (hhigh : q < highEnd m e) :
    Rounds m e q :=
  ⟨hlow.le, hhigh.le, fun _ => ⟨hlow, hhigh⟩⟩

theorem rounds_self (m : Nat) (e : Int) : Rounds m e (m * 2 ^ e) :=
  rounds_of_lt (lowEnd_lt m e) (lt_highEnd m e)

theorem log2_mul_two_pow {n : Nat} (hn : 0 < n) (k : Nat) : (n * 2 ^ k).log2 = n.log2 + k := by
  rw [Nat.log2_eq_iff (by positivity)]
  constructor
  · rw [Nat.pow_add]
    exact Nat.mul_le_mul_right _ (Nat.log2_self_le hn.ne')
  · rw [Nat.add_right_comm, Nat.pow_add _ _ k]
    exact Nat.mul_lt_mul_of_pos_right Nat.lt_log2_self (by positivity)

/-- A positive integer of at most 53 bits is the double with that number, its mantissa shifted to
the full length. -/
theorem unpack_toFloat {n : Nat} (hn : 0 < n) (hlt : n < 2 ^ 53) : ∃ m e h,
    n.toUInt64.toFloat.toModel.unpack = .finite .positive m e h ∧ 2 ^ 52 ≤ m ∧ (m * 2 ^ e : ℚ) = n := by
  obtain ⟨k, hk⟩ : ∃ k, n.log2 + k = 52 := ⟨52 - n.log2, by have := (Nat.log2_lt hn.ne').2 hlt; omega⟩
  have hm : 0 < n * 2 ^ k := by positivity
  have hlog : (n * 2 ^ k).log2 = 52 := (log2_mul_two_pow hn k).trans hk
  have hfull : 2 ^ 52 ≤ n * 2 ^ k := (Nat.le_log2 hm.ne').1 hlog.ge
  have hbound : n * 2 ^ k < 2 ^ 53 := (Nat.log2_lt hm.ne').1 (by omega)
  have hc : IsCanonical (n * 2 ^ k) (-k) := ⟨hbound, by omega, .inl hfull⟩
  -- nothing is cut off, so nothing is rounded
  have hround : UnpackedFloat.round .binary64 .positive n 0 = .finite .positive (n * 2 ^ k) (-k) hm := by
    have htarget : Format.binary64.targetExponent (totalExponent n 0) = -k := by
      rw [targetExponent_eq, totalExponent]
      omega
    have hshift : ((0 : Int) - -(k : Int)).toNat = k := by omega
    have hexponent : (0 : Int) - (k : Nat) = -k := Int.zero_sub _
    unfold UnpackedFloat.round decreaseExponent
    dsimp only
    rw [htarget, hshift, hexponent, Nat.shiftLeft_eq]
    refine roundWithAccuracy_eq hc (rounds_self _ _) hm .positive ?_ (le_target_of_full hfull _)
    rw [mul_div_cancel_right₀ _ (by positivity)]
    exact shows_exact _
  have hpositive : compare (n : Int) 0 = .gt := Int.compare_eq_gt.2 (by omega)
  have hvalue : n.toUInt64.toNat = n := Nat.mod_eq_of_lt (hlt.trans (by decide))
  refine ⟨n * 2 ^ k, -k, hm, ?_, hfull, ?_⟩
  · change UnpackedFloat.unpack .binary64 (UnpackedFloat.pack .binary64
      (UnpackedFloat.normalize .binary64 (n.toUInt64.toNat : Int) 0 .positive)) = _
    rw [hvalue, UnpackedFloat.normalize, hpositive]
    dsimp only
    rw [Int.toNat_natCast, hround, unpack_pack hc (by omega) hm]
  · rw [zpow_neg, zpow_natCast]
    push_cast
    field_simp

/-- A power of ten that is looked up, with a mantissa of full length. -/
def powerExponent (k : Nat) : Int :=
  (10 ^ k).log2 - 52

def powerMantissa (k : Nat) : Nat :=
  10 ^ k * 2 ^ 52 / 2 ^ (10 ^ k).log2

theorem unpack_powerOfTen (k : Fin 23) : ∃ m e h,
    Float.exactlyRepresentablePowersOfTen[k].toModel.unpack = .finite .positive m e h ∧
      (m * 2 ^ e : ℚ) = 10 ^ (k : Nat) := by
  have hparts : ∀ k : Fin 23,
      ofFloat Float.exactlyRepresentablePowersOfTen[k] = .finite false (powerMantissa k) (powerExponent k) ∧
        0 < powerMantissa k ∧ powerMantissa k * 2 ^ (10 ^ (k : Nat)).log2 = 10 ^ (k : Nat) * 2 ^ 52 := by
    decide
  obtain ⟨hfloat, hm, hvalue⟩ := hparts k
  obtain ⟨hc, he, -⟩ := finite_of_ofBits hfloat
  refine ⟨powerMantissa k, powerExponent k, hm, ?_, ?_⟩
  · rw [eq_packed hfloat hm, unpack_packed hc he hm]
    rfl
  · have : (powerMantissa k * 2 ^ (10 ^ (k : Nat)).log2 : ℚ) = 10 ^ (k : Nat) * 2 ^ 52 := by
      exact_mod_cast hvalue
    rw [powerExponent, zpow_sub₀ two_ne_zero, zpow_natCast]
    norm_num at this ⊢
    linarith

/-! ## Decimals -/

section

variable {m : Nat} {e : Int} (hc : IsCanonical m e) (hm : 0 < m) {n : Nat} (hn : 0 < n)
include hc hn

/-- Rounding the exact quotient or product, where the exponent is not out of range. -/
theorem ofScientific_model {k : Int} (h : Rounds m e (n * 10 ^ k)) (hleast : -(2048 + n.log2 : Int) ≤ k)
    (hmost : k ≤ 2048) : UnpackedFloat.ofScientific .binary64 n k = .finite .positive m e hm := by
  unfold UnpackedFloat.ofScientific
  rw [dif_neg hn.ne', if_neg (by norm_num; omega), if_neg (by norm_num; omega)]
  by_cases hk : 0 ≤ k
  · rw [if_pos hk]
    obtain ⟨k, rfl⟩ := Int.eq_ofNat_of_zero_le hk
    refine mul_eq hc hm _ _ ?_ ?_ .positive .positive
    · change Rounds m e ((n <<< 53 : Nat) * 2 ^ (-53 : Int) * ((10 ^ k : Nat) * 2 ^ (0 : Int)))
      have hq : ((n <<< 53 : Nat) * 2 ^ (-53 : Int) * ((10 ^ k : Nat) * 2 ^ (0 : Int)) : ℚ) =
          n * 10 ^ (k : Int) := by
        rw [Nat.shiftLeft_eq, zpow_natCast]
        push_cast
        norm_num
        ring
      rwa [hq]
    · change 2 ^ 52 ≤ (n <<< 53) * 10 ^ k
      rw [Nat.shiftLeft_eq]
      calc 2 ^ 52 ≤ n * 2 ^ 53 := by omega
        _ ≤ n * 2 ^ 53 * 10 ^ k := Nat.le_mul_of_pos_right _ (by positivity)
  · rw [if_neg hk]
    obtain ⟨k, rfl⟩ := Int.exists_eq_neg_ofNat (by omega : k ≤ 0)
    refine div_eq hc hm _ _ ?_ .positive .positive
    have hq : (n * 2 ^ (0 : Int) / ((10 ^ (- -(k : Int)).toNat : Nat) * 2 ^ (0 : Int)) : ℚ) =
        n * 10 ^ (-(k : Int)) := by
      rw [neg_neg, Int.toNat_natCast, zpow_neg, zpow_natCast]
      push_cast
      rw [mul_one, mul_one, div_eq_mul_inv]
    rwa [hq]

theorem ofScientific_eq {negative : Bool} {k : Nat}
    (h : Rounds m e (n * 10 ^ (if negative then -(k : Int) else k)))
    (hleast : -(2048 + n.log2 : Int) ≤ if negative then -(k : Int) else k)
    (hmost : (if negative then -(k : Int) else k) ≤ 2048) :
    Float.ofScientific n negative k = packed false m e hm := by
  unfold Float.ofScientific
  by_cases hsmall : n < 2 ^ 53 ∧ k ≤ 22
  · rw [dif_pos hsmall]
    -- both factors are doubles, and their product or quotient is rounded once
    obtain ⟨m₁, e₁, h₁, hunpack₁, hfull, hvalue₁⟩ := unpack_toFloat hn hsmall.1
    obtain ⟨m₂, e₂, h₂, hunpack₂, hvalue₂⟩ := unpack_powerOfTen ⟨k, by omega⟩
    have hproduct : 2 ^ 52 ≤ m₁ * m₂ := hfull.trans (Nat.le_mul_of_pos_right _ h₂)
    cases negative with
    | true =>
      have hq : (n * 10 ^ (-(k : Int)) : ℚ) = m₁ * 2 ^ e₁ / (m₂ * 2 ^ e₂) := by
        rw [hvalue₁, hvalue₂, zpow_neg, zpow_natCast, div_eq_mul_inv]
      change Float.ofModel (.pack (UnpackedFloat.div .binary64 n.toUInt64.toFloat.toModel.unpack
        Float.exactlyRepresentablePowersOfTen[(⟨k, by omega⟩ : Fin 23)].toModel.unpack)) = _
      rw [hunpack₁, hunpack₂, div_eq hc hm h₁ h₂ (hq ▸ h)]
      rfl
    | false =>
      have hq : (n * 10 ^ (k : Int) : ℚ) = m₁ * 2 ^ e₁ * (m₂ * 2 ^ e₂) := by
        rw [hvalue₁, hvalue₂, zpow_natCast]
      change Float.ofModel (.pack (UnpackedFloat.mul .binary64 n.toUInt64.toFloat.toModel.unpack
        Float.exactlyRepresentablePowersOfTen[(⟨k, by omega⟩ : Fin 23)].toModel.unpack)) = _
      rw [hunpack₁, hunpack₂, mul_eq hc hm h₁ h₂ (hq ▸ h) hproduct]
      rfl
  · rw [dif_neg hsmall]
    -- all other decimals are rounded from their exact value
    have hexponent : (if negative then Int.negOfNat k else Int.ofNat k) = if negative then -(k : Int)
        else k := by
      cases negative
      · rfl
      · exact Int.negOfNat_eq
    change Float.ofModel (.pack (UnpackedFloat.ofScientific .binary64 n
      (if negative then Int.negOfNat k else Int.ofNat k))) = _
    rw [hexponent, ofScientific_model hc hm hn h hleast hmost]
    rfl

end

/-! ## Any decimal -/

theorem digits_bounds {n : Nat} (hn : 0 < n) :
    10 ^ ((Nat.toDigits 10 n).length - 1) ≤ n ∧ n < 10 ^ (Nat.toDigits 10 n).length := by
  have hpos : 0 < (Nat.toDigits 10 n).length := Nat.length_toDigits_pos
  refine ⟨?_, (Nat.length_toDigits_le_iff (by decide) hpos).1 le_rfl⟩
  by_cases hone : (Nat.toDigits 10 n).length = 1
  · rw [hone]
    exact hn
  · by_contra hlt
    have := (Nat.length_toDigits_le_iff (by decide) (by omega)).2 (Nat.lt_of_not_le hlt)
    omega

section

variable {m : Nat} {e : Int} (hc : IsCanonical m e) {q : ℚ} (h : Rounds m e q)
include hc h

/-- A number that is rounded to a double other than zero is not too small. -/
theorem lt_of_rounds (hm : 0 < m) : (10 : ℚ) ^ (-330 : Int) < q := by
  have hm' : (1 : ℚ) ≤ m := by exact_mod_cast hm
  have hpowers : (2 ^ 215 : ℚ) ^ 5 < (10 ^ 66) ^ 5 :=
    pow_lt_pow_left₀ (by norm_num) (by positivity) (by decide)
  rw [← pow_mul, ← pow_mul] at hpowers
  calc (10 : ℚ) ^ (-330 : Int) = (10 ^ (66 * 5))⁻¹ := by rw [zpow_neg, zpow_ofNat]
    _ < (2 ^ (215 * 5))⁻¹ := inv_strictAnti₀ (by positivity) hpowers
    _ = 1 / 2 * 2 ^ (-1074 : Int) := by rw [zpow_neg, zpow_ofNat, one_div, ← mul_inv, ← pow_succ']
    _ ≤ 1 / 2 * 2 ^ e := by
      have := zpow_le_zpow_right₀ (by norm_num : (1 : ℚ) ≤ 2) hc.least
      gcongr
    _ ≤ (m - 1 / 2) * 2 ^ e := by
      gcongr
      linarith
    _ ≤ lowEnd m e := le_lowEnd m e
    _ ≤ q := h.low

theorem rounds_lt (he : e ≤ 971) : q < 10 ^ (310 : Int) := by
  have hm' : (m : ℚ) + 1 ≤ 2 ^ 54 := by exact_mod_cast (by have := hc.bound; omega : m + 1 ≤ 2 ^ 54)
  have hpowers : (2 ^ 205 : ℚ) ^ 5 < (10 ^ 62) ^ 5 :=
    pow_lt_pow_left₀ (by norm_num) (by positivity) (by decide)
  rw [← pow_mul, ← pow_mul] at hpowers
  calc q ≤ (m + 1 / 2) * 2 ^ e := h.high
    _ ≤ 2 ^ 54 * 2 ^ e := by
      gcongr
      linarith
    _ ≤ 2 ^ 54 * 2 ^ (971 : Int) := by
      have := zpow_le_zpow_right₀ (by norm_num : (1 : ℚ) ≤ 2) he
      gcongr
    _ = 2 ^ (205 * 5) := by rw [zpow_ofNat, ← pow_add]
    _ < 10 ^ (62 * 5) := hpowers
    _ = 10 ^ (310 : Int) := by rw [zpow_ofNat]

end

/-- A decimal in the interval of a double is read as that double. -/
theorem roundDecimal_eq {m : Nat} {e : Int} (hc : IsCanonical m e) (he : e ≤ 971) (hm : 0 < m) {n : Nat}
    {k : Int}
    (hn : 0 < n) (h : Rounds m e (n * 10 ^ k)) : roundDecimal n k = packed false m e hm := by
  obtain ⟨hdigits, hdigits'⟩ := digits_bounds hn
  have hlength : 0 < (Nat.toDigits 10 n).length := Nat.length_toDigits_pos
  have hsmall := lt_of_rounds hc h hm
  have hlarge := rounds_lt hc h he
  unfold roundDecimal
  dsimp only
  generalize (Nat.toDigits 10 n).length = length at hdigits hdigits' hlength
  -- the decimal is in the range of doubles, so neither of the two shortcuts is taken
  have hleast : -330 < k + length := by
    have : (10 : ℚ) ^ (-330 : Int) < 10 ^ (k + length) := by
      calc (10 : ℚ) ^ (-330 : Int) < n * 10 ^ k := hsmall
        _ ≤ 10 ^ length * 10 ^ k := by
          gcongr
          exact_mod_cast hdigits'.le
        _ = 10 ^ (k + length) := by
          rw [zpow_add₀ (by norm_num), zpow_natCast, mul_comm]
    exact (zpow_lt_zpow_iff_right₀ (by norm_num)).1 this
  have hmost : k + length ≤ 310 := by
    have : (10 : ℚ) ^ (k + length - 1) < 10 ^ (310 : Int) := by
      calc (10 : ℚ) ^ (k + length - 1) = 10 ^ (length - 1) * 10 ^ k := by
            rw [← zpow_natCast, ← zpow_add₀ (by norm_num)]
            congr 1
            omega
        _ ≤ n * 10 ^ k := by
          gcongr
          exact_mod_cast hdigits
        _ < 10 ^ (310 : Int) := hlarge
    have := (zpow_lt_zpow_iff_right₀ (by norm_num)).1 this
    omega
  have hlog : length - 1 ≤ n.log2 := by
    apply (Nat.le_log2 hn.ne').2
    exact (Nat.pow_le_pow_left (by decide) _).trans hdigits
  rw [if_neg (by simp; omega), if_neg (by omega)]
  -- the sign of the exponent decides between a product and a quotient
  by_cases hk : 0 ≤ k
  · rw [if_pos hk]
    obtain ⟨k, rfl⟩ := Int.eq_ofNat_of_zero_le hk
    exact @ofScientific_eq m e hc hm n hn false k h (by simp; omega) (by simp; omega)
  · rw [if_neg hk]
    obtain ⟨k, rfl⟩ := Int.exists_eq_neg_ofNat (by omega : k ≤ 0)
    rw [neg_neg, Int.toNat_natCast]
    exact @ofScientific_eq m e hc hm n hn true k h (by simp; omega) (by simp)

end Binary64

end UpdaterBootstrap
