import UpdaterBootstrap.Proofs.Reading
import UpdaterBootstrap.Unit.Lexer

/-!
# Which classes of characters are apart

Blanks, the characters of words and numbers, and symbols are told apart by their first character,
and none of them opens a comment or a quoted text.
-/

namespace UpdaterBootstrap

theorem ne_of_class {p : Char → Bool} {c d : Char} (hc : p c = true) (hd : p d = false) : c ≠ d := by
  rintro rfl
  rw [hc] at hd
  cases hd

theorem forall_mem_of_all {cs : List Char} {p : Char → Prop} [DecidablePred p]
    (h : cs.all (fun c => decide (p c)) = true) : ∀ c ∈ cs, p c := by
  simpa using h

theorem isInert_of_class {p : Char → Bool} {c : Char} (hc : p c = true) (h₁ : p '/' = false)
    (h₂ : p '\'' = false) (h₃ : p '"' = false) : isInert c = true := by
  simp [isInert, ne_of_class hc h₁, ne_of_class hc h₂, ne_of_class hc h₃]

theorem lineFeeds_eq_zero {cs : List Char} (h : '\n' ∉ cs) : lineFeeds cs = 0 :=
  List.count_eq_zero.2 h

theorem lineFeeds_of_class {p : Char → Bool} {cs : List Char} (h : ∀ c ∈ cs, p c = true)
    (hp : p '\n' = false) :
    lineFeeds cs = 0 :=
  lineFeeds_eq_zero fun hfeed => ne_of_class (h _ hfeed) hp rfl

/-! ## Blanks -/

def blanks : List Char :=
  [9, 10, 11, 12, 13, 0x20, 0x85, 0xA0, 0x1680, 0x2000, 0x2001, 0x2002, 0x2003, 0x2004, 0x2005, 0x2006,
    0x2007, 0x2008, 0x2009, 0x200A, 0x2028, 0x2029, 0x202F, 0x205F, 0x3000].map Char.ofNat

theorem mem_blanks {c : Char} (h : isBlank c = true) : c ∈ blanks := by
  simp only [isBlank, Bool.or_eq_true, Bool.and_eq_true, decide_eq_true_eq, beq_iff_eq] at h
  rw [blanks, List.mem_map]
  refine ⟨c.toNat, ?_, Char.ofNat_toNat c⟩
  simp only [List.mem_cons, List.not_mem_nil, or_false]
  omega

theorem isIdentPart_of_isBlank {c : Char} (h : isBlank c = true) : isIdentPart c = false := by
  have all : ∀ c ∈ blanks, isIdentPart c = false := forall_mem_of_all (by decide +kernel)
  exact all c (mem_blanks h)

theorem isInert_of_isBlank {c : Char} (h : isBlank c = true) : isInert c = true :=
  isInert_of_class h (by decide) (by decide) (by decide)

theorem isBlank_of_isAsciiBlank {c : Char} (h : isAsciiBlank c = true) : isBlank c = true := by
  simp only [isAsciiBlank, Bool.or_eq_true, beq_iff_eq] at h
  rcases h with (((rfl | rfl) | rfl) | rfl) | rfl <;> decide

/-! ## Words and numbers -/

theorem isInert_of_isIdentPart {c : Char} (h : isIdentPart c = true) : isInert c = true :=
  isInert_of_class h (by decide) (by decide) (by decide)

theorem isBlank_of_isIdentPart {c : Char} (h : isIdentPart c = true) : isBlank c = false := by
  cases hb : isBlank c with
  | false => rfl
  | true => rw [isIdentPart_of_isBlank hb] at h; cases h

theorem mem_digits {c : Char} (h : c.isDigit = true) : c ∈ "0123456789".toList := by
  have hdigits : "0123456789".toList = (List.range 10).map fun i => Char.ofNat (48 + i) := by decide
  rw [Char.isDigit_iff_toNat] at h
  simp only [Char.reduceToNat] at h
  rw [hdigits, List.mem_map]
  refine ⟨c.toNat - 48, List.mem_range.2 (by omega), ?_⟩
  rw [Nat.add_sub_of_le h.1, Char.ofNat_toNat]

theorem isIdentStart_of_isDigit {c : Char} (h : c.isDigit = true) : isIdentStart c = false := by
  have all : ∀ c ∈ "0123456789".toList, isIdentStart c = false := forall_mem_of_all (by decide)
  exact all c (mem_digits h)

theorem isBlank_of_isDigit {c : Char} (h : c.isDigit = true) : isBlank c = false := by
  have all : ∀ c ∈ "0123456789".toList, isBlank c = false := forall_mem_of_all (by decide)
  exact all c (mem_digits h)

def isNumeral (c : Char) : Bool :=
  c.isAlphanum || c == '_' || c == '.' || c == '+' || c == '-'

theorem isInert_of_isNumeral {c : Char} (h : isNumeral c = true) : isInert c = true :=
  isInert_of_class h (by decide) (by decide) (by decide)

end UpdaterBootstrap
