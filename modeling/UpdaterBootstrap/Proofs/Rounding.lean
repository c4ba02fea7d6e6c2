import Mathlib
import UpdaterBootstrap.Decimal.Binary

/-!
# Rounding to doubles

The numbers that are rounded to a double form an interval around it (`Binary64.Rounds`). A mantissa
that is cut off, with what its accuracy tells of the rest, is rounded to the double in whose
interval the number is (`Binary64.roundWithAccuracy_eq`).
-/

namespace UpdaterBootstrap

namespace Binary64

open Float.Model Float.Model.UnpackedFloat

/-! ## What is cut off -/

/-- A mantissa stands for a number `t`: the round bit tells whether half a unit is cut off, the
sticky bit whether more than that or less. -/
structure Shows (em : ExtendedMantissa) (t : ℚ) : Prop where
  low : em.mantissa ≤ t
  high : t < em.mantissa + 1
  round : em.roundBit = true ↔ em.mantissa + 1 / 2 ≤ t
  sticky : em.stickyBit = true ↔ t ≠ em.mantissa ∧ t ≠ em.mantissa + 1 / 2

theorem Shows.inexact {em : ExtendedMantissa} {t : ℚ} (h : Shows em t) :
    (em.roundBit || em.stickyBit) = true ↔ t ≠ em.mantissa := by
  rw [Bool.or_eq_true, h.round, h.sticky]
  constructor
  · rintro (hround | hsticky)
    · intro heq
      linarith
    · exact hsticky.1
  · intro hne
    by_cases hhalf : t = em.mantissa + 1 / 2
    · exact .inl (le_of_eq hhalf.symm)
    · exact .inr ⟨hne, hhalf⟩

theorem Shows.shiftRightOne {em : ExtendedMantissa} {t : ℚ} (h : Shows em t) :
    Shows em.shiftRightOne (t / 2) := by
  have hlow := h.low
  have hhigh := h.high
  have hm : (em.mantissa : ℚ) = 2 * (em.mantissa / 2 : Nat) + (em.mantissa % 2 : Nat) := by
    exact_mod_cast (Nat.div_add_mod em.mantissa 2).symm
  rcases Nat.mod_two_eq_zero_or_one em.mantissa with hmod | hmod <;> rw [hmod] at hm <;> push_cast at hm
  · refine ⟨?_, ?_, ?_, ?_⟩ <;> simp only [ExtendedMantissa.shiftRightOne]
    · linarith
    · linarith
    · exact iff_of_false (by simp [hmod]) (by linarith)
    · rw [h.inexact]
      constructor
      · intro hne
        exact ⟨fun heq => hne (by linarith), fun heq => by linarith⟩
      · rintro ⟨hne, -⟩ heq
        exact hne (by linarith)
  · refine ⟨?_, ?_, ?_, ?_⟩ <;> simp only [ExtendedMantissa.shiftRightOne]
    · linarith
    · linarith
    · exact iff_of_true (by simp [hmod]) (by linarith)
    · rw [h.inexact]
      constructor
      · intro hne
        exact ⟨fun heq => by linarith, fun heq => hne (by linarith)⟩
      · rintro ⟨-, hne⟩ heq
        exact hne (by linarith)

theorem Shows.shiftRight {em : ExtendedMantissa} {t : ℚ} (h : Shows em t) (n : Nat) :
    Shows (em >>> n) (t / 2 ^ n) := by
  change Shows (n.repeat ExtendedMantissa.shiftRightOne em) _
  induction n with
  | zero => simpa [Nat.repeat] using h
  | succ n ih =>
    rw [pow_succ, ← div_div]
    exact ih.shiftRightOne

/-- Rounding gives the nearest integer, and an even one if there are two. -/
theorem Shows.roundedMantissa_eq {em : ExtendedMantissa} {t : ℚ} (h : Shows em t) {n : Nat}
    (hlow : (n : ℚ) - 1 / 2 ≤ t)
    (hhigh : t ≤ n + 1 / 2) (hodd : n % 2 = 1 → (n : ℚ) - 1 / 2 < t ∧ t < n + 1 / 2) :
    em.roundedMantissa = n := by
  obtain ⟨hm, hm', hround, hsticky⟩ := h
  obtain ⟨m, round, sticky⟩ := em
  dsimp only at hm hm' hround hsticky
  -- the number is at most half a unit away, so one of two integers is meant
  have hge : m ≤ n := by
    by_contra hlt
    have : (n : ℚ) + 1 ≤ m := by exact_mod_cast Nat.lt_of_not_le hlt
    linarith
  have hle : n ≤ m + 1 := by
    by_contra hlt
    have : (m : ℚ) + 2 ≤ n := by exact_mod_cast Nat.lt_of_not_le hlt
    linarith
  rcases (by omega : n = m ∨ n = m + 1) with rfl | rfl
  · cases round with
    | false => cases sticky <;> rfl
    | true =>
      -- it can only be kept if the number is half way and the mantissa is even
      have hhalf : t = n + 1 / 2 := le_antisymm hhigh (hround.1 rfl)
      cases sticky with
      | true => exact absurd hhalf (hsticky.1 rfl).2
      | false =>
        have heven : n % 2 = 0 := by
          by_contra hne
          have := (hodd (by omega)).2
          linarith
        simp [ExtendedMantissa.roundedMantissa, ExtendedMantissa.accuracy, Accuracy.roundToNearestEven, heven]
  · push_cast at hlow hodd
    cases round with
    | false =>
      have : ¬ (m : ℚ) + 1 / 2 ≤ t := fun hle => Bool.false_ne_true (hround.2 hle)
      linarith
    | true =>
      cases sticky with
      | true => rfl
      | false =>
        -- half way again, and the mantissa below is odd
        have hhalf : t = m + 1 / 2 := by
          by_contra hne
          exact Bool.false_ne_true (hsticky.2 ⟨by linarith [hround.1 rfl], hne⟩)
        have hm : m % 2 = 1 := by
          by_contra hne
          have := (hodd (by omega)).1
          linarith
        simp [ExtendedMantissa.roundedMantissa, ExtendedMantissa.accuracy, Accuracy.roundToNearestEven, hm]

theorem shows_add {em : ExtendedMantissa} {r : ℚ} (hr : 0 ≤ r) (hr' : r < 1)
    (hround : em.roundBit = true ↔ 1 / 2 ≤ r)
    (hsticky : em.stickyBit = true ↔ r ≠ 0 ∧ r ≠ 1 / 2) : Shows em (em.mantissa + r) where
  low := by linarith
  high := by linarith
  round := by simpa using hround
  sticky := by simpa using hsticky

theorem shows_exact (m : Nat) : Shows (.ofMantissaAndAccuracy m .exact) m := by
  have := @shows_add (.ofMantissaAndAccuracy m .exact) 0
  simp only [ExtendedMantissa.ofMantissaAndAccuracy, add_zero] at this
  apply this <;> norm_num

/-- The quotient of a division stands for the fraction, given what is told of the remainder. -/
theorem shows_quotient (n : Nat) {d : Nat} (hd : 0 < d) :
    Shows (.ofMantissaAndAccuracy (n / d) (accuracyOfFraction (n % d) d)) (n / d : ℚ) := by
  have hd' : (0 : ℚ) < d := by exact_mod_cast hd
  -- whole part and remainder: only the remainder decides the two bits
  have hn : (n / d : ℚ) = (n / d : Nat) + (n % d : Nat) / d := by
    rw [eq_comm, ← mul_right_inj' hd'.ne', mul_add, mul_div_cancel₀ _ hd'.ne', mul_div_cancel₀ _ hd'.ne']
    exact_mod_cast Nat.div_add_mod n d
  have hr : ((n % d : Nat) / d : ℚ) < 1 := by
    rw [div_lt_one hd']
    exact_mod_cast Nat.mod_lt n hd
  rw [hn]
  unfold accuracyOfFraction
  by_cases hzero : n % d = 0
  · rw [if_pos hzero, hzero, Nat.cast_zero, zero_div, add_zero]
    exact shows_exact _
  · have hpos : (0 : ℚ) < (n % d : Nat) / d := div_pos (by exact_mod_cast Nat.pos_of_ne_zero hzero) hd'
    rw [if_neg hzero]
    cases hc : compare (2 * (n % d)) d with
    | lt =>
      have hlt : ((n % d : Nat) / d : ℚ) < 1 / 2 := by
        rw [div_lt_iff₀ hd']
        have : (2 * (n % d : Nat) : ℚ) < d := by exact_mod_cast Nat.compare_eq_lt.1 hc
        linarith
      exact shows_add hpos.le hr (iff_of_false Bool.false_ne_true (not_le.2 hlt))
        (iff_of_true rfl ⟨hpos.ne', hlt.ne⟩)
    | eq =>
      have heq : ((n % d : Nat) / d : ℚ) = 1 / 2 := by
        rw [div_eq_iff hd'.ne']
        have : (2 * (n % d : Nat) : ℚ) = d := by exact_mod_cast Nat.compare_eq_eq.1 hc
        linarith
      exact shows_add hpos.le hr (iff_of_true rfl heq.ge) (iff_of_false Bool.false_ne_true fun h => h.2 heq)
    | gt =>
      have hgt : (1 / 2 : ℚ) < (n % d : Nat) / d := by
        rw [lt_div_iff₀ hd']
        have : (d : ℚ) < 2 * (n % d : Nat) := by exact_mod_cast Nat.compare_eq_gt.1 hc
        linarith
      exact shows_add hpos.le hr (iff_of_true rfl hgt.le) (iff_of_true rfl ⟨hpos.ne', hgt.ne'⟩)

/-! ## The interval of a double -/

/-- A mantissa and an exponent as doubles have them: the mantissa has 53 bits, unless the exponent
is the least. -/
structure IsCanonical (m : Nat) (e : Int) : Prop where
  bound : m < 2 ^ 53
  least : -1074 ≤ e
  full : 2 ^ 52 ≤ m ∨ e = -1074

/-- Where the numbers begin that are rounded to a double: half a unit below, or a quarter where the
units below are half as large. -/
def lowEnd (m : Nat) (e : Int) : ℚ :=
  if m = 2 ^ 52 ∧ -1074 < e then (m - 1 / 4) * 2 ^ e else (m - 1 / 2) * 2 ^ e

def highEnd (m : Nat) (e : Int) : ℚ :=
  (m + 1 / 2) * 2 ^ e

/-- A number is rounded to a double. The ends of the interval belong to it if the mantissa is even. -/
structure Rounds (m : Nat) (e : Int) (q : ℚ) : Prop where
  low : lowEnd m e ≤ q
  high : q ≤ highEnd m e
  odd : m % 2 = 1 → lowEnd m e < q ∧ q < highEnd m e

/-! ## The exponent of the result -/

theorem targetExponent_eq (x : Int) : Format.binary64.targetExponent x = max (x - 53) (-1074) := rfl

theorem mantissa_ofMantissaAndAccuracy (m : Nat) (a : Accuracy) :
    (ExtendedMantissa.ofMantissaAndAccuracy m a).mantissa = m := by
  rcases a with _ | _ | _ | _ <;> rfl

section

variable {mantissa : Nat} {exponent : Int} {a : Accuracy} {q : ℚ}
  (hshows : Shows (.ofMantissaAndAccuracy mantissa a) (q / 2 ^ exponent))
  (hexponent : exponent ≤ Format.binary64.targetExponent (totalExponent mantissa exponent))
include hshows hexponent

theorem shiftToTargetExponent_spec {target : Int}
    (htarget : Format.binary64.targetExponent (totalExponent mantissa exponent) = target) :
    (shiftToTargetExponent .binary64 mantissa exponent a).2 = target ∧
      Shows (shiftToTargetExponent .binary64 mantissa exponent a).1 (q / 2 ^ target) := by
  rw [htarget] at hexponent
  have hshift : exponent + (target - exponent).toNat = target := by omega
  have hq : q / 2 ^ exponent / 2 ^ (target - exponent).toNat = q / 2 ^ target := by
    rw [div_div, ← zpow_natCast, ← zpow_add₀ two_ne_zero, hshift]
  have := hshows.shiftRight (target - exponent).toNat
  rw [hq] at this
  unfold shiftToTargetExponent shiftToExponent
  rw [htarget]
  exact ⟨hshift, this⟩

/-- The exponent of the result is the one at which the number has 53 bits, unless that is below the
least. -/
theorem bounds_of_target {target : Int}
    (htarget : Format.binary64.targetExponent (totalExponent mantissa exponent) = target) :
    -1074 ≤ target ∧ q < 2 ^ (target + 53) ∧ (target = -1074 ∨ 2 ^ (target + 52) ≤ q) := by
  rw [htarget] at hexponent
  rw [targetExponent_eq, totalExponent] at htarget
  have hpos : (0 : ℚ) < 2 ^ exponent := by positivity
  have hlow := hshows.low
  have hhigh := hshows.high
  rw [mantissa_ofMantissaAndAccuracy] at hlow hhigh
  rw [le_div_iff₀ hpos] at hlow
  rw [div_lt_iff₀ hpos] at hhigh
  -- the logarithm of zero says nothing, so zero is taken apart
  by_cases hzero : mantissa = 0
  · subst hzero
    simp only [Nat.log2_zero, Nat.cast_zero, zero_add, one_mul] at htarget hhigh
    refine ⟨by omega, hhigh.trans_le (zpow_le_zpow_right₀ one_le_two (by omega)), .inl (by omega)⟩
  · have hself : ((2 ^ mantissa.log2 : Nat) : ℚ) ≤ mantissa := by exact_mod_cast Nat.log2_self_le hzero
    have hlt : (mantissa : ℚ) + 1 ≤ (2 ^ (mantissa.log2 + 1) : Nat) := by exact_mod_cast Nat.lt_log2_self
    push_cast at hself hlt
    refine ⟨by omega, ?_, ?_⟩
    · calc q < (mantissa + 1) * 2 ^ exponent := hhigh
        _ ≤ 2 ^ (mantissa.log2 + 1) * 2 ^ exponent := by gcongr
        _ = 2 ^ ((mantissa.log2 : Int) + 1 + exponent) := by
          rw [zpow_add₀ two_ne_zero]
          norm_cast
        _ ≤ 2 ^ (target + 53) := zpow_le_zpow_right₀ one_le_two (by omega)
    · by_cases hleast : target = -1074
      · exact .inl hleast
      · right
        calc (2 : ℚ) ^ (target + 52) = 2 ^ ((mantissa.log2 : Int) + exponent) := by
              congr 1
              omega
          _ = 2 ^ mantissa.log2 * 2 ^ exponent := by
            rw [zpow_add₀ two_ne_zero]
            norm_cast
          _ ≤ mantissa * 2 ^ exponent := by gcongr
          _ ≤ q := hlow

end

/-! ## The result -/

/-- A rounded mantissa with at most 53 bits stays where it is. -/
theorem shiftToTargetExponent_fits {m : Nat} {e : Int} (hm : m < 2 ^ 53) (he : -1074 ≤ e) :
    (shiftToTargetExponent .binary64 m e .exact).1.mantissa = m ∧
      (shiftToTargetExponent .binary64 m e .exact).2 = e := by
  have hlog : m.log2 < 53 := by
    by_cases hzero : m = 0
    · simp [hzero]
    · exact (Nat.log2_lt hzero).2 hm
  have hshift : (Format.binary64.targetExponent (totalExponent m e) - e).toNat = 0 := by
    rw [targetExponent_eq, totalExponent]
    omega
  unfold shiftToTargetExponent shiftToExponent
  dsimp only
  rw [hshift]
  exact ⟨rfl, Int.add_zero e⟩

/-- One that rounding made too long is halved. -/
theorem shiftToTargetExponent_carry {e : Int} (he : -1074 < e) :
    (shiftToTargetExponent .binary64 (2 ^ 53) (e - 1) .exact).1.mantissa = 2 ^ 52 ∧
      (shiftToTargetExponent .binary64 (2 ^ 53) (e - 1) .exact).2 = e := by
  have hshift : (Format.binary64.targetExponent (totalExponent (2 ^ 53) (e - 1)) - (e - 1)).toNat = 1 := by
    rw [targetExponent_eq, totalExponent, Nat.log2_two_pow]
    omega
  unfold shiftToTargetExponent shiftToExponent
  dsimp only
  rw [hshift]
  exact ⟨rfl, Int.sub_add_cancel e 1⟩

section

variable {m : Nat} {e : Int} {q : ℚ} (hc : IsCanonical m e) (h : Rounds m e q)

theorem le_lowEnd (m : Nat) (e : Int) : (m - 1 / 2) * 2 ^ e ≤ lowEnd m e := by
  have : (0 : ℚ) < 2 ^ e := by positivity
  unfold lowEnd
  split
  · gcongr
    norm_num
  · exact le_rfl

include hc h

theorem target_of_rounds {target : Int} (hleast : -1074 ≤ target) (hlt : q < 2 ^ (target + 53))
    (hge : target = -1074 ∨ 2 ^ (target + 52) ≤ q) : target = e ∨ target = e - 1 ∧ m = 2 ^ 52 := by
  have hpos : (0 : ℚ) < 2 ^ e := by positivity
  have hhigh : q < 2 ^ (e + 53) := by
    have hm : (m : ℚ) + 1 ≤ 2 ^ 53 := by exact_mod_cast hc.bound
    calc q ≤ (m + 1 / 2) * 2 ^ e := h.high
      _ < 2 ^ 53 * 2 ^ e := by
        gcongr
        linarith
      _ = 2 ^ (e + 53) := by rw [zpow_add₀ two_ne_zero, mul_comm]; norm_cast
  have hle : target ≤ e := by
    by_contra hgt
    rcases hge with hge | hge
    · have := hc.least
      omega
    · have : (2 : ℚ) ^ (e + 53) ≤ 2 ^ (target + 52) := zpow_le_zpow_right₀ one_le_two (by omega)
      linarith
  by_cases heq : target = e
  · exact .inl heq
  right
  -- the number has fewer bits at this exponent, so it lies below the least mantissa with 53 bits
  have hfull : 2 ^ 52 ≤ m := hc.full.resolve_right (by omega)
  have hbelow : q < 2 ^ 52 * 2 ^ e := by
    calc q < 2 ^ (target + 53) := hlt
      _ ≤ 2 ^ (e + 52) := zpow_le_zpow_right₀ one_le_two (by omega)
      _ = 2 ^ 52 * 2 ^ e := by rw [zpow_add₀ two_ne_zero, mul_comm]; norm_cast
  have hm : m = 2 ^ 52 := by
    by_contra hne
    have hm : (2 ^ 52 : ℚ) + 1 ≤ m := by exact_mod_cast (by omega : 2 ^ 52 + 1 ≤ m)
    have : 2 ^ 52 * 2 ^ e ≤ (m - 1 / 2 : ℚ) * 2 ^ e := by
      gcongr
      linarith
    linarith [le_lowEnd m e, h.low]
  refine ⟨?_, hm⟩
  by_contra hne
  have hlow : (2 ^ 52 - 1 / 2 : ℚ) * 2 ^ e ≤ q := by
    have := (le_lowEnd m e).trans h.low
    rwa [hm, Nat.cast_pow, Nat.cast_ofNat] at this
  have : (2 : ℚ) ^ (target + 53) ≤ 2 ^ 51 * 2 ^ e := by
    calc (2 : ℚ) ^ (target + 53) ≤ 2 ^ (e + 51) := zpow_le_zpow_right₀ one_le_two (by omega)
      _ = 2 ^ 51 * 2 ^ e := by rw [zpow_add₀ two_ne_zero, mul_comm]; norm_cast
  nlinarith

/-- The first rounding gives the mantissa of the double, or twice that at half the unit. -/
theorem roundedMantissa_of_shows {em : ExtendedMantissa} {target : Int} (hem : Shows em (q / 2 ^ target))
    (htarget : target = e ∨ target = e - 1 ∧ m = 2 ^ 52) (hleast : -1074 ≤ target)
    (hlt : q < 2 ^ (target + 53)) :
    target = e ∧ em.roundedMantissa = m ∨
      target = e - 1 ∧ em.roundedMantissa = 2 ^ 53 ∧ m = 2 ^ 52 := by
  have hpos : (0 : ℚ) < 2 ^ target := by positivity
  rcases htarget with rfl | ⟨rfl, hm⟩
  · refine .inl ⟨rfl, hem.roundedMantissa_eq ?_ ?_ fun hodd => ?_⟩
    · rw [le_div_iff₀ hpos]
      exact (le_lowEnd m _).trans h.low
    · rw [div_le_iff₀ hpos]
      exact h.high
    · obtain ⟨hlow, hhigh⟩ := h.odd hodd
      rw [lt_div_iff₀ hpos, div_lt_iff₀ hpos]
      exact ⟨(le_lowEnd m _).trans_lt hlow, hhigh⟩
  · have he : (2 : ℚ) ^ e = 2 * 2 ^ (e - 1) := by
      rw [mul_comm, ← zpow_add_one₀ two_ne_zero, Int.sub_add_cancel]
    have hlow := h.low
    rw [lowEnd, if_pos ⟨hm, by omega⟩, hm, he] at hlow
    refine .inr ⟨rfl, hem.roundedMantissa_eq ?_ ?_ fun hodd => by omega, hm⟩ <;> push_cast at hlow ⊢
    · rw [le_div_iff₀ hpos]
      linarith
    · rw [div_le_iff₀ hpos]
      rw [zpow_add₀ two_ne_zero] at hlt
      norm_num at hlt ⊢
      linarith

/-- A number that is cut off at an exponent that is not too large is rounded to the double in whose
interval it is. -/
theorem roundWithAccuracy_eq (hm : 0 < m) (sign : Sign) {mantissa : Nat} {exponent : Int} {a : Accuracy}
    (hshows : Shows (.ofMantissaAndAccuracy mantissa a) (q / 2 ^ exponent))
    (hexponent : exponent ≤ Format.binary64.targetExponent (totalExponent mantissa exponent)) :
    roundWithAccuracy .binary64 sign mantissa exponent a = .finite sign m e hm := by
  obtain ⟨htarget, hfirst⟩ := shiftToTargetExponent_spec hshows hexponent rfl
  obtain ⟨hleast, hlt, hge⟩ := bounds_of_target hshows hexponent rfl
  generalize Format.binary64.targetExponent (totalExponent mantissa exponent) =
    target at htarget hfirst hleast hlt hge
  have hresult := roundedMantissa_of_shows hc h hfirst (target_of_rounds hc h hleast hlt hge) hleast hlt
  unfold roundWithAccuracy
  generalize shiftToTargetExponent .binary64 mantissa exponent a = first at htarget hresult
  obtain ⟨em, target'⟩ := first
  obtain rfl : target' = target := htarget
  dsimp only at hresult ⊢
  have hsecond : (shiftToTargetExponent .binary64 em.roundedMantissa target' .exact).1.mantissa = m ∧
      (shiftToTargetExponent .binary64 em.roundedMantissa target' .exact).2 = e := by
    rcases hresult with ⟨rfl, hrounded⟩ | ⟨rfl, hrounded, hpower⟩
    · rw [hrounded]
      exact shiftToTargetExponent_fits hc.bound hc.least
    · rw [hrounded, hpower]
      exact shiftToTargetExponent_carry (by omega)
  generalize shiftToTargetExponent .binary64 em.roundedMantissa target' .exact = second at hsecond
  obtain ⟨em', e'⟩ := second
  obtain ⟨rfl, rfl⟩ := hsecond
  exact dif_neg hm.ne'

end

end Binary64

end UpdaterBootstrap
