import UpdaterBootstrap.Proofs.TomlLines
import UpdaterBootstrap.Proofs.WrittenDouble

/-!
# Doubles as unquoted values

A double in positional form is no integer, date or time, since it has a point and neither dashes nor
colons between digits. It is read as the double it was written from (`Toml.isWritten_decimal`).
-/

namespace UpdaterBootstrap

namespace Toml

open Binary64

/-! ## Digits -/

theorem digits?_digits {ds : List Char} (hne : ds ≠ []) (h : ∀ c ∈ ds, c.isDigit = true) :
    digits? Char.isDigit ds = some ds := by
  fun_induction digits? Char.isDigit ds with
  | case1 => exact absurd rfl hne
  | case2 => rfl
  | case4 =>
    have := h '_' (by simp)
    cases this
  | case6 c cs hone _ _ ih =>
    rw [ih hone fun d hd => h d (List.mem_cons_of_mem c hd)]
    rfl
  | case3 | case5 | case7 => exact absurd (h _ List.mem_cons_self) ‹_›

/-- What is not a digit makes the text no number. -/
theorem digits?_of_mem {p : Char → Bool} {c : Char} (hc : p c = false) (hgap : c ≠ '_') {cs : List Char}
    (hmem : c ∈ cs) :
    digits? p cs = none := by
  have hne {d : Char} (hd : p d = true) : c ≠ d := by
    rintro rfl
    rw [hc] at hd
    cases hd
  fun_induction digits? p cs with
  | case1 => rfl
  | case2 d hd => exact absurd (List.mem_singleton.1 hmem) (hne hd)
  | case4 d cs hd ih =>
    rw [ih (by simpa [hne hd, hgap] using hmem)]
    rfl
  | case6 d cs _ _ hd ih =>
    rw [ih (by simpa [hne hd] using hmem)]
    rfl
  | case3 | case5 | case7 => rfl

/-! ## No integer -/

theorem point_mem_takeSign {cs : List Char} (h : '.' ∈ cs) : '.' ∈ (takeSign cs).2 := by
  unfold takeSign
  split
  · simpa using h
  · simpa using h
  · exact h

theorem integer?_of_point {cs : List Char} (h : '.' ∈ cs) : integer? cs = none := by
  unfold integer?
  split
  next ds =>
    rw [digits?_of_mem (c := '.') (by decide) (by decide) (by simpa using h)]
    rfl
  next ds =>
    rw [digits?_of_mem (c := '.') (by decide) (by decide) (by simpa using h)]
    rfl
  next ds =>
    rw [digits?_of_mem (c := '.') (by decide) (by decide) (by simpa using h)]
    rfl
  next =>
    dsimp only [wholeDigits?]
    rw [digits?_of_mem (c := '.') (by decide) (by decide) (point_mem_takeSign h)]
    rfl

/-! ## No date or time -/

theorem not_mem_of_twoDigits? {c : Char} {low high n : Nat} {cs rest : List Char} (h : c ∉ cs)
    (hrest : twoDigits? low high cs = some (n, rest)) : c ∉ rest := by
  unfold twoDigits? at hrest
  split at hrest
  next a b ds =>
    dsimp only at hrest
    split at hrest
    · cases hrest
      intro hmem
      exact h (List.mem_cons_of_mem _ (List.mem_cons_of_mem _ hmem))
    · cases hrest
  next => cases hrest

theorem after?_of_not_mem {c : Char} {cs : List Char} (h : c ∉ cs) : after? c cs = none := by
  unfold after?
  split
  next d ds =>
    rw [if_neg (by rintro heq; exact h (by simp [beq_iff_eq.1 heq]))]
  next => rfl

/-- A date has dashes. -/
theorem dateRest?_of_not_mem {cs : List Char} (h : '-' ∉ cs) : dateRest? cs = none := by
  unfold dateRest?
  cases h₁ : twoDigits? 0 99 cs with
  | none => rfl
  | some r₁ =>
    cases h₂ : twoDigits? 0 99 r₁.2 with
    | none => simp [h₂]
    | some r₂ =>
      have := after?_of_not_mem (not_mem_of_twoDigits? (not_mem_of_twoDigits? h h₁) h₂)
      simp [h₂, this]

/-- A time has colons. -/
theorem timeRest?_of_not_mem {cs : List Char} (h : ':' ∉ cs) : timeRest? cs = none := by
  unfold timeRest?
  cases h₁ : twoDigits? 0 23 cs with
  | none => rfl
  | some r =>
    have := after?_of_not_mem (not_mem_of_twoDigits? h h₁)
    simp [this]

theorem twoDigits?_minus (low high : Nat) (cs : List Char) : twoDigits? low high ('-' :: cs) = none := by
  cases cs <;> simp [twoDigits?]

theorem isMoment_minus (cs : List Char) : isMoment ('-' :: cs) = false := by
  have hdate : dateRest? ('-' :: cs) = none := by
    unfold dateRest?
    rw [twoDigits?_minus]
    rfl
  have htime : timeRest? ('-' :: cs) = none := by
    unfold timeRest?
    rw [twoDigits?_minus]
    rfl
  unfold isMoment
  rw [hdate, htime]
  rfl

theorem isMoment_of_not_mem {cs : List Char} (hdash : '-' ∉ cs) (hcolon : ':' ∉ cs) :
    isMoment cs = false := by
  unfold isMoment
  rw [dateRest?_of_not_mem hdash, timeRest?_of_not_mem hcolon]
  rfl

/-! ## Decimals -/

section

variable {whole fraction : List Char} (h : IsPositional whole fraction)
include h

theorem char_of_positional {c : Char} (hc : c ∈ whole ++ '.' :: fraction) : c.isDigit = true ∨ c = '.' := by
  rcases List.mem_append.1 hc with hwhole | hrest
  · exact .inl (h.whole_digits c hwhole)
  · rcases List.mem_cons.1 hrest with rfl | hfraction
    · exact .inr rfl
    · exact .inl (h.fraction_digits c hfraction)

theorem not_mem_positional {c : Char} (hdigit : c.isDigit = false) (hc : c ≠ '.') :
    c ∉ whole ++ '.' :: fraction := by
  intro hmem
  rcases char_of_positional h hmem with h' | h'
  · rw [hdigit] at h'
    cases h'
  · exact hc h'

theorem isExponentLetter_positional {c : Char} (hc : c ∈ whole ++ '.' :: fraction) :
    isExponentLetter c = false := by
  rw [isExponentLetter, Bool.or_eq_false_iff]
  constructor
  · apply beq_false_of_ne
    rintro rfl
    exact not_mem_positional h (by decide) (by decide) hc
  · apply beq_false_of_ne
    rintro rfl
    exact not_mem_positional h (by decide) (by decide) hc

theorem plainDecimal?_positional :
    plainDecimal? (whole ++ '.' :: fraction) = some (whole ++ '.' :: fraction) := by
  have hletter : ∀ c ∈ whole ++ '.' :: fraction, (!isExponentLetter c) = true := fun c hc => by
    rw [isExponentLetter_positional h hc]
    rfl
  have hpoint : ∀ c ∈ whole, (c != '.') = true := fun c hc => by
    rw [bne_iff_ne]
    rintro rfl
    cases h.whole_digits _ hc
  have hwhole : wholeDigits? whole = some whole := by
    rw [wholeDigits?, digits?_digits h.whole_ne h.whole_digits]
    exact Option.filter_some_pos (by simpa using h.lead)
  unfold plainDecimal?
  rw [List.takeWhile_eq_self_iff.2 hletter, List.dropWhile_eq_nil_iff.2 hletter]
  dsimp only
  rw [takeWhile_point hpoint (by decide), dropWhile_point hpoint (by decide), hwhole]
  simp [digits?_digits h.fraction_ne h.fraction_digits]

section

variable {x : Float} (hread : readFloatChars? (whole ++ '.' :: fraction) = some x)
  (hfinite : isFinite x = true)
include hread hfinite

theorem decimal?_positional {cs : List Char} {negative : Bool}
    (hsign : takeSign cs = (negative, whole ++ '.' :: fraction)) :
    decimal? cs = some (if negative then -x else x) := by
  have hword {word : String} (hword : '.' ∉ word.toList) :
      (whole ++ '.' :: fraction == word.toList) = false := by
    apply beq_false_of_ne
    intro heq
    exact hword (heq ▸ by simp)
  have hfractional : isFractional (whole ++ '.' :: fraction) = true := by simp [isFractional]
  unfold decimal?
  rw [hsign]
  dsimp only
  rw [hword (by decide), hword (by decide), hfractional, plainDecimal?_positional h]
  simp [hread, hfinite]

theorem scalar?_positional {cs : List Char} {negative : Bool}
    (hsign : takeSign cs = (negative, whole ++ '.' :: fraction))
    (hmoment : isMoment cs = false) (hpoint : '.' ∈ cs) :
    scalar? cs = some (.decimal (if negative then -x else x)) := by
  have hword {word : String} (hword : '.' ∉ word.toList) : (cs == word.toList) = false := by
    apply beq_false_of_ne
    rintro rfl
    exact hword hpoint
  unfold scalar?
  rw [hword (by decide), hword (by decide), hmoment, integer?_of_point hpoint,
    decimal?_positional h hread hfinite hsign]
  rfl

end

end

/-! ## Any double -/

theorem isScalarChar_of_positional {whole fraction : List Char} (h : IsPositional whole fraction) {c : Char}
    (hc : c ∈ whole ++ '.' :: fraction) : isScalarChar c = true := by
  rcases char_of_positional h hc with hdigit | rfl
  · simp [isScalarChar, Char.isAlphanum, hdigit]
  · rfl

/-- A double is written as a value that is read as that double. -/
theorem isWritten_decimal (x : Float) : IsWritten (.decimal x) (writeFloat .settings x).toList := by
  cases hx : ofFloat x with
  | nan =>
    rw [writeFloat, hx, eq_of_nan hx]
    exact isWritten_word rfl rfl rfl
  | infinite negative =>
    rw [writeFloat, hx, eq_of_infinite hx]
    cases negative <;> exact isWritten_word rfl rfl rfl
  | finite negative m e =>
    obtain ⟨hc, he, -⟩ := finite_of_ofBits hx
    obtain ⟨whole, fraction, hwritten, h, hvalue⟩ := exists_positional hc he
    have hread := readFloatChars?_positional h
    have hfinite := isFinite_magnitude hc he
    rw [hvalue] at hread
    rw [writeFloat, hx, eq_magnitude hx]
    dsimp only
    rw [hwritten]
    cases negative with
    | false =>
      -- without a dash or a colon it cannot be a date or a time
      have hdash : '-' ∉ whole ++ '.' :: fraction := not_mem_positional h (by decide) (by decide)
      have hcolon : ':' ∉ whole ++ '.' :: fraction := not_mem_positional h (by decide) (by decide)
      have hscalar :=
        scalar?_positional h hread hfinite (takeSign_positional h) (isMoment_of_not_mem hdash hcolon)
          (by simp)
      rw [if_neg Bool.false_ne_true, if_neg Bool.false_ne_true, String.toList_ofList]
      exact isWritten_scalar (by simp) (fun c hc => isScalarChar_of_positional h hc) hscalar
    | true =>
      -- a dash in front does not make it a date
      have hsign : takeSign ('-' :: (whole ++ '.' :: fraction)) = (true, whole ++ '.' :: fraction) := rfl
      have hscalar := scalar?_positional h hread hfinite hsign (isMoment_minus _) (by simp)
      have htext : ("-" ++ String.ofList (whole ++ '.' :: fraction)).toList =
          '-' :: (whole ++ '.' :: fraction) := by simp
      rw [if_pos rfl, if_pos rfl, htext]
      refine isWritten_scalar (by simp) (fun c hc => ?_) hscalar
      rcases List.mem_cons.1 hc with rfl | hc
      · rfl
      · exact isScalarChar_of_positional h hc

end Toml

end UpdaterBootstrap
