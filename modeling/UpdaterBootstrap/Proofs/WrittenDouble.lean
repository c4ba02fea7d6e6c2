import UpdaterBootstrap.Decimal.Layout
import UpdaterBootstrap.Proofs.Quoting
import UpdaterBootstrap.Proofs.ShortestDigits

/-!
# Doubles in positional form

A finite double is written as digits with a point among them (`exists_positional`), and what the
digits are worth is read as that double (`readFloatChars?_positional`).
-/

namespace UpdaterBootstrap

open Binary64

/-! ## Digits -/

theorem digitsValue_eq (ds : List Char) : digitsValue ds = Nat.ofDigitChars 10 ds 0 :=
  Nat.ofDigitChars_eq_foldl.symm

theorem digitsValue_zeros_append (k : Nat) (ds : List Char) :
    digitsValue (.replicate k '0' ++ ds) = digitsValue ds := by
  rw [digitsValue_eq, digitsValue_eq, Nat.ofDigitChars_append, Nat.ofDigitChars_replicate_zero, Nat.mul_zero]

theorem digitsValue_append_zeros (ds : List Char) (k : Nat) :
    digitsValue (ds ++ .replicate k '0') = digitsValue ds * 10 ^ k := by
  rw [digitsValue_eq, digitsValue_eq, Nat.ofDigitChars_append, Nat.ofDigitChars_replicate_zero, Nat.mul_comm]

theorem head?_decimalDigits {n : Nat} (hn : 0 < n) : (decimalDigits n).head? ≠ some '0' := by
  induction n using Nat.strong_induction_on with
  | _ n ih =>
    unfold decimalDigits at ih ⊢
    by_cases hlt : n < 10
    · rw [Nat.toDigits_of_lt_base hlt]
      interval_cases n <;> decide
    · rw [Nat.toDigits_of_base_le (by decide) (by omega), List.head?_append_of_ne_nil _ Nat.toDigits_ne_nil]
      exact ih (n / 10) (by omega) (by omega)

/-! ## The positional form -/

/-- Digits before and after a point, without a zero in front of others. -/
structure IsPositional (whole fraction : List Char) : Prop where
  whole_ne : whole ≠ []
  fraction_ne : fraction ≠ []
  whole_digits : ∀ c ∈ whole, c.isDigit = true
  fraction_digits : ∀ c ∈ fraction, c.isDigit = true
  lead : whole.length = 1 ∨ whole.head? ≠ some '0'

theorem writePositional_spec {ds : List Char} (hne : ds ≠ []) (hdigits : ∀ c ∈ ds, c.isDigit = true)
    (hlead : ds.head? ≠ some '0') (point : Int) : ∃ whole fraction,
    writePositional true ds point = whole ++ '.' :: fraction ∧ IsPositional whole fraction ∧
      (digitsValue (whole ++ fraction) * 10 ^ (-(fraction.length : Int)) : ℚ) =
        digitsValue ds * 10 ^ (point - ds.length) := by
  have hzeros (k : Nat) : ∀ c ∈ List.replicate k '0', c.isDigit = true := fun c hc => by
    rw [List.eq_of_mem_replicate hc]
    decide
  have hlength := List.length_pos_of_ne_nil hne
  unfold writePositional
  split
  next hpoint =>
    -- zeros between the point and the digits
    refine ⟨['0'], .replicate (-point).toNat '0' ++ ds, rfl,
      ⟨by simp, by simp [hne], by simp, ?_, .inl rfl⟩, ?_⟩
    · intro c hc
      exact (List.mem_append.1 hc).elim (hzeros _ c) (hdigits c)
    · have hvalue : digitsValue (['0'] ++ (.replicate (-point).toNat '0' ++ ds)) = digitsValue ds :=
        digitsValue_zeros_append ((-point).toNat + 1) ds
      have hexponent : -((.replicate (-point).toNat '0' ++ ds : List Char).length : Int) =
          point - ds.length := by
        rw [List.length_append, List.length_replicate]
        omega
      rw [hvalue, hexponent]
  split
  next hpoint hwhole =>
    -- zeros between the digits and the point
    refine ⟨ds ++ .replicate (point.toNat - ds.length) '0', ['0'], rfl,
      ⟨by simp [hne], by simp, ?_, by simp, .inr ?_⟩, ?_⟩
    · intro c hc
      exact (List.mem_append.1 hc).elim (hdigits c) (hzeros _ c)
    · rwa [List.head?_append_of_ne_nil _ hne]
    · have hvalue : digitsValue (ds ++ .replicate (point.toNat - ds.length) '0' ++ ['0']) =
          digitsValue ds * 10 ^ (point.toNat - ds.length + 1) := by
        rw [List.append_assoc, ← List.replicate_succ', digitsValue_append_zeros]
      rw [hvalue, Nat.cast_mul, Nat.cast_pow, mul_assoc, ← zpow_natCast, Nat.cast_ofNat,
        ← zpow_add₀ (by norm_num)]
      congr 2
      simp
      omega
  next hpoint hwhole =>
    -- the point among the digits
    have htake : point.toNat ≠ 0 := by omega
    refine ⟨ds.take point.toNat, ds.drop point.toNat, rfl,
      ⟨by simp [htake, hne], by simpa using hwhole, ?_, ?_, .inr ?_⟩, ?_⟩
    · exact fun c hc => hdigits c (List.mem_of_mem_take hc)
    · exact fun c hc => hdigits c (List.mem_of_mem_drop hc)
    · rwa [List.head?_take, if_neg htake]
    · rw [List.take_append_drop, List.length_drop]
      congr 2
      omega

def magnitude (m : Nat) (e : Int) : Float :=
  if hm : 0 < m then packed false m e hm else 0.0

theorem isFinite_magnitude {m : Nat} {e : Int} (hc : IsCanonical m e) (he : e ≤ 971) :
    isFinite (magnitude m e) = true := by
  unfold magnitude
  split
  next hm => exact isFinite_packed hc he hm
  next => rfl

/-- A finite double is its magnitude with its sign. -/
theorem eq_magnitude {x : Float} {negative : Bool} {m : Nat} {e : Int}
    (h : ofFloat x = .finite negative m e) :
    x = if negative then -magnitude m e else magnitude m e := by
  obtain ⟨hc, he, -⟩ := finite_of_ofBits h
  unfold magnitude
  by_cases hm : 0 < m
  · rw [dif_pos hm, eq_packed h hm]
    cases negative
    · rfl
    · exact (neg_packed hc he hm).symm
  · obtain rfl : m = 0 := by omega
    rw [dif_neg hm, eq_zero h]

theorem exists_positional {m : Nat} {e : Int} (hc : IsCanonical m e) (he : e ≤ 971) : ∃ whole fraction,
    writeMagnitude .settings m e = whole ++ '.' :: fraction ∧ IsPositional whole fraction ∧
      roundDecimal (digitsValue (whole ++ fraction)) (-(fraction.length : Int)) = magnitude m e := by
  unfold writeMagnitude magnitude
  by_cases hm : 0 < m
  · rw [if_neg hm.ne', dif_pos hm]
    have hround := shortest_rounds hc hm .up
    have hpos := shortest_pos hc hm .up
    have hne : decimalDigits (shortest .up m e).digits ≠ [] := Nat.toDigits_ne_nil
    obtain ⟨whole, fraction, hwritten, hpositional, hvalue⟩ := writePositional_spec hne
      (fun c => isDigit_of_mem_decimalDigits) (head?_decimalDigits hpos)
      ((shortest .up m e).exponent + (decimalDigits (shortest .up m e).digits).length)
    rw [digitsValue_decimalDigits, add_sub_cancel_right] at hvalue
    refine ⟨whole, fraction, hwritten, hpositional, roundDecimal_eq hc he hm ?_ (hvalue ▸ hround)⟩
    apply Nat.pos_of_ne_zero
    intro hzero
    rw [hzero, Nat.cast_zero, zero_mul] at hvalue
    have : (0 : ℚ) < (shortest .up m e).digits := by exact_mod_cast hpos
    have : (0 : ℚ) < (shortest .up m e).digits * 10 ^ (shortest .up m e).exponent := by positivity
    linarith
  · rw [if_pos (by omega), dif_neg hm]
    refine ⟨['0'], ['0'], rfl, ⟨by simp, by simp, by simp, by simp, .inl rfl⟩, ?_⟩
    simp [roundDecimal, digitsValue]

/-! ## What is read -/

section

variable {p : Char → Bool} {whole : List Char} (h : ∀ c ∈ whole, p c = true) (hp : p '.' = false)
  (rest : List Char)
include h hp

theorem takeWhile_point : (whole ++ '.' :: rest).takeWhile p = whole := by
  rw [List.takeWhile_append_of_pos h, List.takeWhile_cons_of_neg (by simp [hp]), List.append_nil]

theorem dropWhile_point : (whole ++ '.' :: rest).dropWhile p = '.' :: rest := by
  rw [List.dropWhile_append_of_pos h, List.dropWhile_cons_of_neg (by simp [hp])]

end

section

variable {whole fraction : List Char} (h : IsPositional whole fraction)
include h

theorem readUnsigned?_positional : readUnsigned? (whole ++ '.' :: fraction) =
    some (roundDecimal (digitsValue (whole ++ fraction)) (-(fraction.length : Int))) := by
  have htake : fraction.takeWhile Char.isDigit = fraction := List.takeWhile_eq_self_iff.2 h.fraction_digits
  have hdrop : fraction.dropWhile Char.isDigit = [] := List.dropWhile_eq_nil_iff.2 h.fraction_digits
  have hsome : (whole.isEmpty && fraction.isEmpty) = false := by simp [h.whole_ne]
  unfold readUnsigned?
  rw [takeWhile_point h.whole_digits (by decide), dropWhile_point h.whole_digits (by decide)]
  simp [htake, hdrop, hsome, readExponent?]

theorem takeSign_positional : takeSign (whole ++ '.' :: fraction) = (false, whole ++ '.' :: fraction) := by
  obtain ⟨c, cs, rfl⟩ := List.exists_cons_of_ne_nil h.whole_ne
  have hc := h.whole_digits c List.mem_cons_self
  unfold takeSign
  split
  next heq =>
    cases heq
    cases hc
  next heq =>
    cases heq
    cases hc
  next => rfl

theorem readFloatChars?_positional : readFloatChars? (whole ++ '.' :: fraction) =
    some (roundDecimal (digitsValue (whole ++ fraction)) (-(fraction.length : Int))) := by
  have hword {word : String} (hword : '.' ∉ word.toList) :
      ((whole ++ '.' :: fraction).map Char.toLower == word.toList) = false := by
    apply beq_false_of_ne
    intro heq
    apply hword
    rw [← heq]
    simp
  unfold readFloatChars?
  rw [takeSign_positional h]
  dsimp only
  rw [hword (by decide), hword (by decide), hword (by decide), readUnsigned?_positional h]
  rfl

end

end UpdaterBootstrap
