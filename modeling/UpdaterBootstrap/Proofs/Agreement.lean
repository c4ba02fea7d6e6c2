import UpdaterBootstrap.Proofs.Pieces

/-!
# Texts that begin alike

How far the scan looks ahead. A name, a comment mark or quotes are read alike before two texts that
agree up to a character that joins nothing.
-/

namespace UpdaterBootstrap

/-- Whether a character may become part of a name, a mark or quotes with what is put next to it. -/
def isJoining (c : Char) : Bool :=
  isIdentPart c || isQuote c || c == '@' || c == '.' || c == '/' || c == '*'

inductive Agrees : List Char → List Char → Prop
  | nil : Agrees [] []
  | cons (c : Char) {cs ds : List Char} (h : Agrees cs ds) : Agrees (c :: cs) (c :: ds)
  | apart {c : Char} (h : isJoining c = false) (cs ds : List Char) : Agrees (c :: cs) (c :: ds)

theorem Agrees.append {cs ds : List Char} (h : Agrees cs ds) (a : List Char) :
    Agrees (a ++ cs) (a ++ ds) := by
  induction a with
  | nil => exact h
  | cons c a ih => exact .cons c ih

theorem isJoining_eq_false {c : Char} (h : isJoining c = false) :
    isIdentPart c = false ∧ isQuote c = false ∧ c ≠ '@' ∧ c ≠ '.' ∧ c ≠ '/' ∧ c ≠ '*' := by
  simpa [isJoining, and_assoc] using h

theorem isJoining_of_isAsciiBlank {c : Char} (h : isAsciiBlank c = true) : isJoining c = false := by
  simp only [isAsciiBlank, Bool.or_eq_true, beq_iff_eq] at h
  rcases h with (((rfl | rfl) | rfl) | rfl) | rfl <;> decide

/-! ## Names -/

theorem Agrees.head? {cs ds : List Char} (h : Agrees cs ds) : cs.head? = ds.head? := by
  cases h <;> rfl

theorem Agrees.dottedRest_eq {cs ds : List Char} (h : Agrees cs ds) : dottedRest cs = dottedRest ds := by
  induction h with
  | nil => rfl
  | cons c h ih => rw [dottedRest, dottedRest, h.head?, ih]
  | apart h cs ds =>
    obtain ⟨hpart, _, _, hpoint, _⟩ := isJoining_eq_false h
    simp [dottedRest, hpart, hpoint]

theorem Agrees.dottedName_eq {cs ds : List Char} (h : Agrees cs ds) : dottedName cs = dottedName ds := by
  cases h with
  | nil => rfl
  | cons c h => rw [dottedName, dottedName, h.dottedRest_eq]
  | @apart c h cs ds =>
    simp [dottedName, isIdentStart_of_not_isIdentPart (isJoining_eq_false h).1]

theorem Agrees.takeWhile_eq {cs ds : List Char} (h : Agrees cs ds) :
    cs.takeWhile isIdentPart = ds.takeWhile isIdentPart := by
  induction h with
  | nil => rfl
  | cons c h ih => rw [List.takeWhile_cons, List.takeWhile_cons, ih]
  | apart h cs ds => simp [(isJoining_eq_false h).1]

/-! ## Readings -/

theorem Agrees.take_two {cs ds : List Char} (h : Agrees cs ds) {q : Char} (hq : isQuote q = true)
    (htake : cs.take 2 = [q, q]) : ds.take 2 = [q, q] := by
  have hapart {c : Char} (hc : isJoining c = false) : c ≠ q :=
    (ne_of_class hq (isJoining_eq_false hc).2.1).symm
  cases h with
  | nil => cases htake
  | apart h cs ds => exact absurd (List.cons.inj htake).1 (hapart h)
  | cons c h =>
    cases h with
    | nil => cases htake
    | cons d h => exact htake
    | apart h cs ds => exact absurd (List.cons.inj (List.cons.inj htake).2).1 (hapart h)

theorem Agrees.symm {cs ds : List Char} (h : Agrees cs ds) : Agrees ds cs := by
  induction h with
  | nil => exact .nil
  | cons c h ih => exact .cons c ih
  | apart h cs ds => exact .apart h ds cs

theorem Agrees.step_eq {cs ds : List Char} (h : Agrees cs ds) {r : Reading} {c : Char}
    (hr : r.Reached (c :: cs)) : r.step c cs = r.step c ds :=
  hr.step_congr h.head? fun _ hq => ⟨h.take_two hq, h.symm.take_two hq⟩

/-- A character that joins nothing is read alike whatever comes next. -/
theorem step_apart {r : Reading} {c : Char} {cs : List Char} (hr : r.Reached (c :: cs))
    (hc : isJoining c = false) (ds : List Char) : r.step c cs = r.step c ds := by
  obtain ⟨_, hquote, _, _, hslash, hstar⟩ := isJoining_eq_false hc
  obtain ⟨n, region⟩ := r
  cases n with
  | succ n => rfl
  | zero =>
    cases region with
    | code =>
      have hquote : (c == '\'' || c == '"') = false := hquote
      simp [Reading.step, hslash, hquote]
    | lineComment => rfl
    | blockComment => simp [Reading.step, hstar]
    | quoted q => rfl
    | tripled q =>
      have hq : c ≠ q := (ne_of_class (hr.quoted q (.inr rfl)) hquote).symm
      simp [Reading.step, hq]

/-- A blank that code follows on its line is code. -/
theorem eq_code_of_blank {r : Reading} {c : Char} {cs : List Char} (hr : r.Reached (c :: cs))
    (hc : isAsciiBlank c = true) (hfeed : c ≠ '\n') (h : (r.step c cs).2 = .code) : r = .code := by
  obtain ⟨_, hquote, _, _, hslash, hstar⟩ := isJoining_eq_false (isJoining_of_isAsciiBlank hc)
  have hescape : c ≠ '\\' := by
    rintro rfl
    cases hc
  obtain ⟨n, region⟩ := r
  cases n with
  | succ n =>
    obtain ⟨rfl, rfl⟩ : n = 0 ∧ region = .code := by simpa [Reading.step, Reading.code] using h
    have hskipped := hr.skipped rfl c (by simp)
    rw [hquote] at hskipped
    simp [hslash] at hskipped
  | zero =>
    cases region with
    | code => rfl
    | lineComment => simp [Reading.step, Reading.code, hfeed] at h
    | blockComment => simp [Reading.step, Reading.code, hstar] at h
    | quoted q =>
      have hq : c ≠ q := (ne_of_class (hr.quoted q (.inl rfl)) hquote).symm
      simp [Reading.step, Reading.code, hq, hescape, hfeed] at h
    | tripled q =>
      have hq : c ≠ q := (ne_of_class (hr.quoted q (.inr rfl)) hquote).symm
      simp [Reading.step, Reading.code, hq, hescape] at h

end UpdaterBootstrap
