import UpdaterBootstrap.Decimal.Shortest
import UpdaterBootstrap.Proofs.NearestDouble

/-!
# The fewest digits lie in the interval

What is looked for are integers on a grid of tens in the interval of a double. The bounds are scaled
until they are integers; the comparison is the one of the interval (`Binary64.inside_iff`).
Seventeen digits make the grid narrower than any interval, so that `shortest` always has a decimal
to give (`Binary64.shortest_rounds`).
-/

namespace UpdaterBootstrap

namespace Binary64

/-! ## The decimal point -/

theorem pointPosition_le {m : Nat} (hm : 0 < m) (e : Int) :
    (10 : ℚ) ^ (pointPosition m e - 1) ≤ m * 2 ^ e := by
  unfold pointPosition decimalDigits
  by_cases he : 0 ≤ e
  · obtain ⟨e, rfl⟩ := Int.eq_ofNat_of_zero_le he
    have hn : 0 < m * 2 ^ e := by positivity
    have hlength : 0 < (Nat.toDigits 10 (m * 2 ^ e)).length := Nat.length_toDigits_pos
    rw [if_pos he, Nat.pow_eq, Int.toNat_natCast, zpow_natCast]
    calc (10 : ℚ) ^ (((Nat.toDigits 10 (m * 2 ^ e)).length : Int) - 1)
        = 10 ^ ((Nat.toDigits 10 (m * 2 ^ e)).length - 1) := by
          rw [← zpow_natCast, Nat.cast_pred hlength]
      _ ≤ m * 2 ^ e := by exact_mod_cast (digits_bounds hn).1
  · obtain ⟨e, rfl⟩ := Int.exists_eq_neg_ofNat (by omega : e ≤ 0)
    have hn : 0 < m * 5 ^ e := by positivity
    have hlength : 0 < (Nat.toDigits 10 (m * 5 ^ e)).length := Nat.length_toDigits_pos
    -- with a negative exponent the digits are those of the same multiple of a power of five
    have hpower : (10 : ℚ) ^ (-(e : Int)) = (5 ^ e)⁻¹ * 2 ^ (-(e : Int)) := by
      rw [zpow_neg, zpow_neg, zpow_natCast, zpow_natCast, ← mul_inv, ← mul_pow]
      norm_num
    rw [if_neg he, Nat.pow_eq, neg_neg, Int.toNat_natCast]
    calc (10 : ℚ) ^ (((Nat.toDigits 10 (m * 5 ^ e)).length : Int) + -(e : Int) - 1)
        = 10 ^ ((Nat.toDigits 10 (m * 5 ^ e)).length - 1) * 10 ^ (-(e : Int)) := by
          rw [← zpow_natCast, ← zpow_add₀ (by norm_num), Nat.cast_pred hlength]
          congr 1
          ring
      _ ≤ (m * 5 ^ e : Nat) * 10 ^ (-(e : Int)) := by
        gcongr
        exact_mod_cast (digits_bounds hn).1
      _ = m * 2 ^ (-(e : Int)) := by
        rw [hpower]
        push_cast
        field_simp

/-! ## Scaled bounds -/

theorem cast_scale {n two ten : Nat} {k : Int} (hk : 0 ≤ k + two) :
    ((n * Nat.pow 2 (k + two).toNat * Nat.pow 10 ten : Nat) : ℚ) = n * 2 ^ k * (2 ^ two * 10 ^ ten) := by
  have hpower : (2 : ℚ) ^ (k + two).toNat = 2 ^ k * 2 ^ two := by
    rw [← zpow_natCast, Int.toNat_of_nonneg hk, zpow_add₀ two_ne_zero, zpow_natCast]
  rw [Nat.pow_eq, Nat.pow_eq]
  push_cast
  rw [hpower]
  ring

theorem cast_unit {two ten : Nat} {grid : Int} (hgrid : 0 ≤ grid + ten) :
    ((Nat.pow 2 two * Nat.pow 10 (grid + ten).toNat : Nat) : ℚ) = 10 ^ grid * (2 ^ two * 10 ^ ten) := by
  have hpower : (10 : ℚ) ^ (grid + ten).toNat = 10 ^ grid * 10 ^ ten := by
    rw [← zpow_natCast, Int.toNat_of_nonneg hgrid, zpow_add₀ (by norm_num), zpow_natCast]
  rw [Nat.pow_eq, Nat.pow_eq]
  push_cast
  rw [hpower]
  ring

theorem cast_highEnd {m two ten : Nat} {e : Int} (hk : 0 ≤ e - 1 + two) :
    (((2 * m + 1) * Nat.pow 2 (e - 1 + two).toNat * Nat.pow 10 ten : Nat) : ℚ) =
      highEnd m e * (2 ^ two * 10 ^ ten) := by
  rw [cast_scale hk, highEnd, zpow_sub_one₀ two_ne_zero]
  push_cast
  ring

theorem cast_lowEnd {m two ten : Nat} {e : Int} (hm : 0 < m) (hk : 0 ≤ e - 2 + two) :
    ((if m = Nat.pow 2 52 ∧ -1074 < e then (4 * m - 1) * Nat.pow 2 (e - 2 + two).toNat * Nat.pow 10 ten
      else (2 * m - 1) * Nat.pow 2 (e - 1 + two).toNat * Nat.pow 10 ten : Nat) : ℚ) =
      lowEnd m e * (2 ^ two * 10 ^ ten) := by
  unfold lowEnd
  by_cases hleast : m = Nat.pow 2 52 ∧ -1074 < e
  · rw [if_pos hleast, if_pos (show m = 2 ^ 52 ∧ -1074 < e from hleast), cast_scale hk,
      Nat.cast_pred (by omega), zpow_sub₀ two_ne_zero]
    push_cast
    ring
  · rw [if_neg hleast, if_neg (show ¬(m = 2 ^ 52 ∧ -1074 < e) from hleast), cast_scale (by omega),
      Nat.cast_pred (by omega), zpow_sub_one₀ two_ne_zero]
    push_cast
    ring

def Inside (m low high x : Nat) : Prop :=
  if m % 2 = 0 then low ≤ x ∧ x ≤ high else low < x ∧ x < high

instance (m low high x : Nat) : Decidable (Inside m low high x) :=
  inferInstanceAs (Decidable (if m % 2 = 0 then low ≤ x ∧ x ≤ high else low < x ∧ x < high))

/-- Comparing integers that are scaled is comparing the numbers. -/
theorem inside_iff {m : Nat} {e : Int} {low high x : Nat} {q D : ℚ} (hD : 0 < D)
    (hlow : (low : ℚ) = lowEnd m e * D)
    (hhigh : (high : ℚ) = highEnd m e * D) (hx : (x : ℚ) = q * D) : Inside m low high x ↔ Rounds m e q := by
  have hle₁ : low ≤ x ↔ lowEnd m e ≤ q := by
    rw [← @Nat.cast_le ℚ, hlow, hx, mul_le_mul_iff_left₀ hD]
  have hle₂ : x ≤ high ↔ q ≤ highEnd m e := by
    rw [← @Nat.cast_le ℚ, hhigh, hx, mul_le_mul_iff_left₀ hD]
  have hlt₁ : low < x ↔ lowEnd m e < q := by
    rw [← @Nat.cast_lt ℚ, hlow, hx, mul_lt_mul_iff_left₀ hD]
  have hlt₂ : x < high ↔ q < highEnd m e := by
    rw [← @Nat.cast_lt ℚ, hhigh, hx, mul_lt_mul_iff_left₀ hD]
  unfold Inside
  by_cases heven : m % 2 = 0
  · rw [if_pos heven, hle₁, hle₂]
    exact ⟨fun ⟨h₁, h₂⟩ => ⟨h₁, h₂, fun hodd => by omega⟩, fun h => ⟨h.low, h.high⟩⟩
  · rw [if_neg heven, hlt₁, hlt₂]
    exact ⟨fun h => ⟨h.1.le, h.2.le, fun _ => h⟩, fun h => h.odd (by omega)⟩

/-! ## The neighbours on a grid -/

/-- The multiple of a unit next to a value that is taken, given which of the two are in the interval. -/
def neighbour (tie : Tie) (value unit : Nat) (hitBelow hitAbove : Bool) : Option Nat :=
  let below := value / unit
  let above := below + 1
  match hitBelow, hitAbove with
  | false, false => none
  | true, false => some below
  | false, true => some above
  | true, true =>
    let down := value - below * unit
    let up := above * unit - value
    if down < up then some below
    else if up < down then some above
    else match tie with
      | .up => some above
      | .even => if below % 2 = 0 then some below else some above

theorem neighbour_cases (tie : Tie) (value unit : Nat) (hitBelow hitAbove : Bool) :
    neighbour tie value unit hitBelow hitAbove = none ∧ hitBelow = false ∧ hitAbove = false ∨
      neighbour tie value unit hitBelow hitAbove = some (value / unit) ∧ hitBelow = true ∨
      neighbour tie value unit hitBelow hitAbove = some (value / unit + 1) ∧ hitAbove = true := by
  unfold neighbour
  cases hitBelow <;> cases hitAbove
  · exact .inl ⟨rfl, rfl, rfl⟩
  · exact .inr (.inr ⟨rfl, rfl⟩)
  · exact .inr (.inl ⟨rfl, rfl⟩)
  · dsimp only
    split
    · exact .inr (.inl ⟨rfl, rfl⟩)
    · split
      · exact .inr (.inr ⟨rfl, rfl⟩)
      · cases tie
        · exact .inr (.inr ⟨rfl, rfl⟩)
        · dsimp only
          split
          · exact .inr (.inl ⟨rfl, rfl⟩)
          · exact .inr (.inr ⟨rfl, rfl⟩)

section

variable {m : Nat} (hm : 0 < m) (e : Int) (tie : Tie) (count : Nat) {grid : Int}
  (hgrid : pointPosition m e - count = grid)
include hm hgrid

/-- The search in terms of the numbers that the scaled integers are. -/
theorem nearestWith_eq : ∃ (value low high unit : Nat) (D : ℚ), 0 < D ∧ (value : ℚ) = m * 2 ^ e * D ∧
    (low : ℚ) = lowEnd m e * D ∧ (high : ℚ) = highEnd m e * D ∧ (unit : ℚ) = 10 ^ grid * D ∧
    nearestWith tie m e count =
      (neighbour tie value unit
        (decide (Inside m low high (value / unit * unit)))
        (decide (Inside m low high ((value / unit + 1) * unit)))).map fun digits => ⟨digits, grid⟩ := by
  let two := (2 - e).toNat
  let ten := (-grid).toNat
  have hvalue := @cast_scale m two ten e (by omega)
  have hlow := @cast_lowEnd m two ten e hm (by omega)
  have hhigh := @cast_highEnd m two ten e (by omega)
  have hunit := @cast_unit two ten grid (by omega)
  subst hgrid
  exact ⟨_, _, _, _, _, by positivity, hvalue, hlow, hhigh, hunit, rfl⟩

/-- What is found is in the interval, and nothing is found only if neither neighbour is. -/
theorem nearestWith_spec :
    ∃ below : Nat, below * 10 ^ grid ≤ (m * 2 ^ e : ℚ) ∧ (m * 2 ^ e : ℚ) < (below + 1) * 10 ^ grid ∧
    ((∃ digits : Nat, nearestWith tie m e count = some ⟨digits, grid⟩ ∧ Rounds m e (digits * 10 ^ grid)) ∨
      nearestWith tie m e count = none ∧
        ¬ Rounds m e (below * 10 ^ grid) ∧ ¬ Rounds m e ((below + 1 : Nat) * 10 ^ grid)) := by
  obtain ⟨value, low, high, unit, D, hD, hvalue, hlow, hhigh, hunit, heq⟩ :=
    nearestWith_eq hm e tie count hgrid
  have hpos : 0 < unit := by
    have : (0 : ℚ) < unit := by
      rw [hunit]
      positivity
    exact_mod_cast this
  -- the code compares integers, all of them multiplied by the same number
  have hinside (x : Nat) : decide (Inside m low high (x * unit)) = true ↔ Rounds m e (x * 10 ^ grid) := by
    rw [decide_eq_true_iff]
    exact inside_iff hD hlow hhigh (by rw [Nat.cast_mul, hunit, mul_assoc])
  refine ⟨value / unit, ?_, ?_, ?_⟩
  · rw [← mul_le_mul_iff_left₀ hD, mul_assoc, ← hunit, ← hvalue]
    exact_mod_cast Nat.div_mul_le_self value unit
  · rw [← mul_lt_mul_iff_left₀ hD, ← hvalue, mul_assoc, ← hunit, mul_comm]
    exact_mod_cast Nat.lt_mul_div_succ value hpos
  · rw [heq, ← hinside, ← hinside]
    rcases neighbour_cases tie value unit (decide (Inside m low high (value / unit * unit)))
      (decide (Inside m low high ((value / unit + 1) * unit)))
        with ⟨hpick, hbelow, habove⟩ | ⟨hpick, hhit⟩ | ⟨hpick, hhit⟩
    · exact .inr ⟨by rw [hpick]; rfl, by rw [hbelow]; exact Bool.false_ne_true,
        by rw [habove]; exact Bool.false_ne_true⟩
    · exact .inl ⟨_, by rw [hpick]; rfl, (hinside _).1 hhit⟩
    · exact .inl ⟨_, by rw [hpick]; rfl, (hinside _).1 hhit⟩

end

/-! ## Seventeen digits -/

/-- A step on the grid of seventeen digits is smaller than the interval, so that a neighbour is in
it. -/
theorem nearestWith_seventeen {m : Nat} {e : Int} (hc : IsCanonical m e) (hm : 0 < m) (tie : Tie) :
    nearestWith tie m e 17 ≠ none := by
  intro hnone
  obtain ⟨below, hle, hlt, ⟨_, hsome, -⟩ | ⟨-, hbelow, habove⟩⟩ := nearestWith_spec hm e tie 17 rfl
  · cases hnone.symm.trans hsome
  have hpoint := pointPosition_le hm e
  have hpower : (10 : ℚ) ^ (pointPosition m e - 1) = 10 ^ (pointPosition m e - (17 : Nat)) * 10 ^ 16 := by
    rw [← zpow_natCast, ← zpow_add₀ (by norm_num)]
    congr 1
    omega
  rw [hpower] at hpoint
  rw [Nat.cast_succ] at habove
  generalize (10 : ℚ) ^ (pointPosition m e - (17 : Nat)) = unit at *
  have hleft : below * unit ≤ lowEnd m e := by
    by_contra hlow
    exact hbelow (rounds_of_lt (not_le.1 hlow) (hle.trans_lt (lt_highEnd m e)))
  have hright : highEnd m e ≤ (below + 1) * unit := by
    by_contra hhigh
    exact habove (rounds_of_lt ((lowEnd_lt m e).trans hlt) (not_le.1 hhigh))
  -- with no neighbour inside, the interval would fit into one step
  have hwidth : highEnd m e - lowEnd m e ≤ unit := by linarith
  have hpos : (0 : ℚ) < 2 ^ e := by positivity
  unfold highEnd lowEnd at hwidth
  split at hwidth
  next h =>
    rw [h.1] at hwidth hpoint
    push_cast at hwidth hpoint
    linarith
  next =>
    have hbound : (m * 2 ^ e : ℚ) ≤ 2 ^ 53 * 2 ^ e := by
      gcongr
      exact_mod_cast hc.bound.le
    linarith

/-! ## The shortest decimal -/

theorem trimZeros_value (fuel : Nat) (d : Decimal) :
    ((trimZeros fuel d).digits * 10 ^ (trimZeros fuel d).exponent : ℚ) = d.digits * 10 ^ d.exponent := by
  induction fuel generalizing d with
  | zero => rfl
  | succ fuel ih =>
    unfold trimZeros
    by_cases hzero : d.digits ≠ 0 ∧ d.digits % 10 = 0
    · have hdigits : (d.digits : ℚ) = (d.digits / 10 : Nat) * 10 := by
        exact_mod_cast (Nat.div_mul_cancel (Nat.dvd_of_mod_eq_zero hzero.2)).symm
      rw [if_pos hzero, ih, hdigits, zpow_add_one₀ (by norm_num)]
      ring
    · rw [if_neg hzero]

/-- The shortest decimal of a double is in its interval. -/
theorem shortest_rounds {m : Nat} {e : Int} (hc : IsCanonical m e) (hm : 0 < m) (tie : Tie) :
    Rounds m e ((shortest tie m e).digits * 10 ^ (shortest tie m e).exponent) := by
  unfold shortest
  cases h : (List.range 17).findSome? fun i => nearestWith tie m e (i + 1) with
  | none =>
    have := List.findSome?_eq_none_iff.1 h 16 (by simp)
    exact absurd this (nearestWith_seventeen hc hm tie)
  | some d =>
    obtain ⟨i, -, hi⟩ := List.exists_of_findSome?_eq_some h
    dsimp only
    rw [trimZeros_value]
    obtain ⟨_, -, -, ⟨digits, hsome, hround⟩ | ⟨hnone, -⟩⟩ := nearestWith_spec hm e tie (i + 1) rfl
    · cases hi.symm.trans hsome
      exact hround
    · cases hi.symm.trans hnone

theorem shortest_pos {m : Nat} {e : Int} (hc : IsCanonical m e) (hm : 0 < m) (tie : Tie) :
    0 < (shortest tie m e).digits := by
  have hpos := lt_of_rounds hc (shortest_rounds hc hm tie) hm
  apply Nat.pos_of_ne_zero
  intro hzero
  rw [hzero, Nat.cast_zero, zero_mul] at hpos
  exact absurd hpos (not_lt.2 (by positivity))

end Binary64

end UpdaterBootstrap
