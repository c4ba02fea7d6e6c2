import UpdaterBootstrap.Unit.Constant

/-!
# Integers in constant arithmetic

Sums, differences, products and negations of 64-bit integers are exact or overflow. So are quotients
that are whole, but for the one that overflows, which becomes a decimal (`fold_integers`).
-/

namespace UpdaterBootstrap

def IsExactly (n : Int) (value : Except ArithmeticFault Constant) : Prop :=
  (∃ k : Int64, k.toInt = n ∧ value = .ok (.integer k)) ∨
    (∀ k : Int64, k.toInt ≠ n) ∧ ∃ fault, value = .error fault ∧ fault.message = "integer overflow"

/-- The value of a quotient of integers: exact if it is whole, and a decimal otherwise. -/
inductive IsQuotient (m n : Int64) (value : Except ArithmeticFault Constant) : Prop
  | byZero {fault : ArithmeticFault} (hn : n = 0) (h : value = .error fault)
      (message : fault.message = "division by zero")
  | whole (hn : n ≠ 0) (hdvd : n.toInt ∣ m.toInt) (h : IsExactly (m.toInt / n.toInt) value)
  | broken (hn : n ≠ 0) (hdvd : ¬ n.toInt ∣ m.toInt)
      (h : value = .ok (.decimal (.ofInt m.toInt / .ofInt n.toInt)))

theorem isExactly_exactInteger (n : Int) : IsExactly n (exactInteger n) := by
  unfold exactInteger
  rw [Int64.toInt_minValue, Int64.toInt_maxValue]
  split
  · rename_i hfits
    exact .inl ⟨.ofInt n, Int64.toInt_ofInt_of_le hfits.1 (by omega), rfl⟩
  · rename_i hfits
    refine .inr ⟨?_, .overflow, rfl, rfl⟩
    rintro k rfl
    exact hfits ⟨k.le_toInt, by have := k.toInt_lt; omega⟩

theorem toInt_ne_zero {n : Int64} (h : n ≠ 0) : n.toInt ≠ 0 := by
  intro hzero
  exact h (Int64.toInt_inj.1 hzero)

/-- Of all whole quotients one is too large for 64 bits. -/
theorem lt_quotient_iff {m n : Int64} (hn : n ≠ 0) (hdvd : n.toInt ∣ m.toInt) :
    Int64.maxValue.toInt < m.toInt / n.toInt ↔ m = Int64.minValue ∧ n = -1 := by
  obtain ⟨q, hq⟩ := hdvd
  have hne := toInt_ne_zero hn
  have hquotient : m.toInt / n.toInt = q := by rw [hq, Int.mul_ediv_cancel_left _ hne]
  have hlow := m.le_toInt
  have hhigh := m.toInt_lt
  rw [hquotient, ← Int64.toInt_inj, ← Int64.toInt_inj, Int64.toInt_minValue, Int64.toInt_maxValue]
  have hone : (-1 : Int64).toInt = -1 := rfl
  rw [hone]
  constructor
  · intro hlarge
    obtain hpositive | hminus | hsmaller : 0 < n.toInt ∨ n.toInt = -1 ∨ n.toInt ≤ -2 := by omega
    · have hgrows : 1 * q ≤ n.toInt * q := Int.mul_le_mul_of_nonneg_right hpositive (by omega)
      omega
    · rw [hminus] at hq
      omega
    · have hgrows : n.toInt * q ≤ -2 * q := Int.mul_le_mul_of_nonneg_right hsmaller (by omega)
      omega
  · intro ⟨hm, hminus⟩
    rw [hminus, hm] at hq
    omega

theorem fold_divide {m n : Int64} (hn : n ≠ 0) :
    fold .divide (.integer m) (.integer n) =
      if n.toInt ∣ m.toInt ∧ m.toInt / n.toInt ≤ Int64.maxValue.toInt then exactInteger (m.toInt / n.toInt)
      else .ok (.decimal (.ofInt m.toInt / .ofInt n.toInt)) := by
  rw [fold, foldIntegers, if_neg (toInt_ne_zero hn)]
  simp only [← Int.dvd_iff_tmod_eq_zero]
  by_cases hdvd : n.toInt ∣ m.toInt
  · rw [Int.tdiv_eq_ediv_of_dvd hdvd]
    rfl
  · rw [if_neg (fun h => hdvd h.1), if_neg (fun h => hdvd h.1)]
    rfl

theorem isQuotient_fold_iff (m n : Int64) :
    IsQuotient m n (fold .divide (.integer m) (.integer n)) ↔ ¬ (m = Int64.minValue ∧ n = -1) := by
  by_cases hn : n = 0
  · subst hn
    exact ⟨fun _ h => absurd h.2 (by decide), fun _ => .byZero rfl rfl rfl⟩
  by_cases hdvd : n.toInt ∣ m.toInt
  · rw [fold_divide hn, ← lt_quotient_iff hn hdvd, Int.not_lt]
    by_cases hfits : m.toInt / n.toInt ≤ Int64.maxValue.toInt
    · rw [if_pos ⟨hdvd, hfits⟩]
      exact ⟨fun _ => hfits, fun _ => .whole hn hdvd (isExactly_exactInteger _)⟩
    · rw [if_neg fun h => hfits h.2]
      refine ⟨?_, fun h => absurd h hfits⟩
      intro h
      cases h with
      | byZero hzero => exact absurd hzero hn
      | whole _ _ h => rcases h with ⟨_, _, h⟩ | ⟨_, _, h, _⟩ <;> cases h
      | broken _ hbroken => exact absurd hdvd hbroken
  · rw [fold_divide hn, if_neg fun h => hdvd h.1]
    refine ⟨?_, fun _ => .broken hn hdvd rfl⟩
    rintro _ ⟨rfl, rfl⟩
    exact hdvd ⟨-Int64.minValue.toInt, rfl⟩

/-- Arithmetic on integers is exact or overflows, and a quotient that is not whole is a decimal; but
the least integer divided by minus one, which is whole, is a decimal too. -/
theorem fold_integers (m n : Int64) :
    IsExactly (m.toInt + n.toInt) (fold .add (.integer m) (.integer n)) ∧
    IsExactly (m.toInt - n.toInt) (fold .subtract (.integer m) (.integer n)) ∧
    IsExactly (m.toInt * n.toInt) (fold .multiply (.integer m) (.integer n)) ∧
    IsExactly (-m.toInt) (negate (.integer m)) ∧
    (IsQuotient m n (fold .divide (.integer m) (.integer n)) ↔ ¬ (m = Int64.minValue ∧ n = -1)) ∧
    fold .divide (.integer Int64.minValue) (.integer (-1)) =
      .ok (.decimal (.ofInt Int64.minValue.toInt / .ofInt (-1))) :=
  ⟨isExactly_exactInteger _, isExactly_exactInteger _, isExactly_exactInteger _, isExactly_exactInteger _,
    isQuotient_fold_iff m n, rfl⟩

theorem not_isQuotient_least :
    ¬ IsQuotient Int64.minValue (-1) (fold .divide (.integer Int64.minValue) (.integer (-1))) := by
  intro h
  exact (isQuotient_fold_iff _ _).1 h ⟨rfl, rfl⟩

end UpdaterBootstrap
