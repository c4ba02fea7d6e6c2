import UpdaterBootstrap.Proofs.Characters
import UpdaterBootstrap.Proofs.Outcome

/-!
# Numbers

A number takes characters off the front of a text that are all made for numbers, so none of them
can begin a comment or a quoted text.
-/

namespace UpdaterBootstrap

def isFigure (c : Char) : Bool :=
  c.isAlphanum || c == '_' || c == '.'

def isSign (c : Char) : Bool :=
  c == '+' || c == '-'

theorem isNumeral_eq (c : Char) : isNumeral c = (isFigure c || isSign c) := by
  simp only [isNumeral, isFigure, isSign, Bool.or_assoc]

theorem isFigure_of_isHexDigit {c : Char} (h : (isHexDigit c || c == '_') = true) :
    isFigure c = true := by
  have hlower (h : 'a' ≤ c ∧ c ≤ 'f') : c.isLower = true :=
    Bool.and_eq_true_iff.2 ⟨decide_eq_true h.1, decide_eq_true (Nat.le_trans h.2 (by decide))⟩
  have hupper (h : 'A' ≤ c ∧ c ≤ 'F') : c.isUpper = true :=
    decide_eq_true ⟨h.1, Nat.le_trans h.2 (by decide)⟩
  have halpha (h : c.isUpper = true ∨ c.isLower = true) : c.isAlpha = true := Bool.or_eq_true_iff.2 h
  simp only [isHexDigit, isFigure, Char.isAlphanum, Bool.or_eq_true, Bool.and_eq_true, decide_eq_true_eq] at *
  rcases h with ((h | h) | h) | h
  · exact .inl (.inl (.inr h))
  · exact .inl (.inl (.inl (halpha (.inr (hlower h)))))
  · exact .inl (.inl (.inl (halpha (.inl (hupper h)))))
  · exact .inl (.inr h)

theorem isFigure_of_isDigit {c : Char} (h : c.isDigit = true) : isFigure c = true := by
  simp [isFigure, Char.isAlphanum, h]

theorem isFigure_of_isDigitOrGap {c : Char} (h : isDigitOrGap c = true) : isFigure c = true := by
  simp only [isDigitOrGap, Bool.or_eq_true] at h
  rcases h with h | h
  · exact isFigure_of_isDigit h
  · simp [isFigure, h]

theorem isSign_of_isFigure {c : Char} (h : isFigure c = true) : isSign c = false := by
  simp [isSign, ne_of_class h (d := '+') (by decide), ne_of_class h (d := '-') (by decide)]

def signsBound : List Char → Bool
  | [] => true
  | c :: cs => (!isSign c || cs.head?.any Char.isDigit) && signsBound cs

theorem signsBound_append {a b : List Char} (ha : signsBound a = true) (hb : signsBound b = true) :
    signsBound (a ++ b) = true := by
  induction a with
  | nil => exact hb
  | cons c a ih =>
    rw [signsBound, Bool.and_eq_true] at ha
    rw [List.cons_append, signsBound, ih ha.2, Bool.and_true]
    cases a with
    | nil =>
      have hc : isSign c = false := by simpa using ha.1
      rw [hc]
      rfl
    | cons d a => exact ha.1

theorem signsBound_figures {a : List Char} (h : ∀ c ∈ a, isFigure c = true) : signsBound a = true := by
  induction a with
  | nil => rfl
  | cons c a ih =>
    obtain ⟨hc, ha⟩ := List.forall_mem_cons.1 h
    rw [signsBound, ih ha, isSign_of_isFigure hc]
    rfl

/-- `a` stands at the front of `cs`, has only characters that numbers are made of, and signs before
digits only. -/
def Numerals (a cs : List Char) : Prop :=
  a <+: cs ∧ (∀ c ∈ a, isNumeral c = true) ∧ signsBound a = true

theorem Numerals.append {a b cs : List Char} (ha : Numerals a cs) (hb : Numerals b (cs.drop a.length)) :
    Numerals (a ++ b) cs := by
  obtain ⟨⟨r, rfl⟩, ha, hsa⟩ := ha
  rw [List.drop_left] at hb
  obtain ⟨⟨r, rfl⟩, hb, hsb⟩ := hb
  refine ⟨⟨r, by rw [List.append_assoc]⟩, fun c hc => ?_, signsBound_append hsa hsb⟩
  exact (List.mem_append.1 hc).elim (ha c) (hb c)

theorem numerals_nil (cs : List Char) : Numerals [] cs :=
  ⟨List.nil_prefix, fun c hc => by simp at hc, rfl⟩

theorem numerals_figures {a cs : List Char} (hfront : a <+: cs) (h : ∀ c ∈ a, isFigure c = true) :
    Numerals a cs :=
  ⟨hfront, fun c hc => by rw [isNumeral_eq, h c hc]; rfl, signsBound_figures h⟩

theorem numerals_takeWhile {p : Char → Bool} (hp : ∀ c, p c = true → isFigure c = true) (cs : List Char) :
    Numerals (cs.takeWhile p) cs :=
  numerals_figures (List.takeWhile_prefix p) fun c hc => hp c (List.all_eq_true.1 List.all_takeWhile c hc)

theorem numerals_cons {c : Char} {a cs : List Char} (hc : isFigure c = true) (ha : Numerals a cs) :
    Numerals (c :: a) (c :: cs) := by
  have hfirst : Numerals [c] (c :: cs) :=
    numerals_figures ⟨cs, rfl⟩ fun d hd => List.mem_singleton.1 hd ▸ hc
  exact hfirst.append ha

theorem numerals_filter_take {p : Char → Bool} (hp : ∀ c, p c = true → isFigure c = true) (cs : List Char) :
    Numerals ((cs.take 1).filter p) cs := by
  cases cs with
  | nil => exact numerals_nil _
  | cons c cs =>
    simp only [List.take_succ_cons, List.take_zero, List.filter_cons, List.filter_nil]
    split
    · rename_i hc
      exact numerals_cons (hp c hc) (numerals_nil _)
    · exact numerals_nil _

theorem isFigure_of_contains (letters : List Char) (hl : ∀ c ∈ letters, isFigure c = true) (c : Char)
    (h : letters.contains c = true) : isFigure c = true :=
  hl c (by simpa using h)

theorem numerals_fractionPart (cs : List Char) : Numerals (fractionPart cs) cs := by
  unfold fractionPart
  split
  · split
    · rename_i c cs hc
      exact numerals_cons (by decide) (numerals_cons (isFigure_of_isDigit hc)
        (numerals_takeWhile (fun _ => isFigure_of_isDigitOrGap) cs))
    · exact numerals_nil _
  · exact numerals_nil _

/-- Digits with a sign before them or not. -/
theorem numerals_signed {cs : List Char} :
    let sign := (cs.take 1).filter isSign
    let digits := (cs.drop sign.length).takeWhile Char.isDigit
    digits ≠ [] → Numerals (sign ++ digits) cs := by
  cases cs with
  | nil => exact fun h => absurd rfl h
  | cons c cs =>
    dsimp only [List.take_succ_cons, List.take_zero]
    rw [List.filter_cons, List.filter_nil]
    cases hc : isSign c with
    | false =>
      rw [if_neg Bool.false_ne_true, List.nil_append]
      exact fun _ => numerals_takeWhile (fun _ => isFigure_of_isDigit) _
    | true =>
      rw [if_pos rfl, List.length_singleton, List.drop_succ_cons, List.drop_zero]
      intro hne
      obtain ⟨hfront, hnumeral, hbound⟩ := numerals_takeWhile (fun _ => isFigure_of_isDigit) cs
      obtain ⟨d, ds, hd⟩ := List.exists_cons_of_ne_nil hne
      have hdigit : d.isDigit = true := by
        have hmem : d ∈ cs.takeWhile Char.isDigit := by rw [hd]; exact List.mem_cons_self
        exact List.all_eq_true.1 List.all_takeWhile d hmem
      refine ⟨(List.prefix_cons_inj c).2 hfront,
        List.forall_mem_cons.2 ⟨by rw [isNumeral_eq, hc, Bool.or_true], hnumeral⟩, ?_⟩
      rw [List.singleton_append, signsBound, hbound, hd, List.head?_cons, Option.any_some, hdigit,
        Bool.or_true]
      rfl

theorem numerals_exponentPart (cs : List Char) : Numerals (exponentPart cs) cs := by
  unfold exponentPart
  split
  · split
    · rename_i e cs he
      dsimp only
      split
      · exact numerals_nil _
      · rename_i hdigits
        refine numerals_cons ?_ (numerals_signed fun h => hdigits ?_)
        · simp only [Bool.or_eq_true, beq_iff_eq] at he
          rcases he with rfl | rfl <;> decide
        · exact List.isEmpty_iff.2 h
    · exact numerals_nil _
  · exact numerals_nil _

def Token.IsNumber (t : Token) : Prop :=
  (∃ n, t = .integer n) ∨ ∃ x, t = .decimal x

theorem readHexadecimal_ok {cs : List Char} {t : Token} {n : Nat} (h : readHexadecimal cs = .ok (t, n)) :
    t.IsNumber ∧ ∃ a, n = 2 + a.length ∧ Numerals a cs := by
  unfold readHexadecimal at h
  dsimp only at h
  split at h
  · rename_i m _
    obtain ⟨rfl, rfl⟩ := Prod.mk.inj (Except.ok.inj h)
    refine ⟨.inl ⟨m, rfl⟩, _, ?_, Numerals.append (numerals_takeWhile (fun _ => isFigure_of_isHexDigit) cs)
      (numerals_filter_take (isFigure_of_contains "lLiIgG".toList (forall_mem_of_all (by decide))) _)⟩
    rw [List.length_append, Nat.add_assoc]
  · cases h

/-- At most one letter of two classes is taken after the digits. -/
theorem numerals_letter {text cs : List Char} {p q : Char → Bool} (htext : Numerals text cs)
    (hp : ∀ c, (p c || q c) = true → isFigure c = true) :
    ∃ a, text.length + (((cs.drop text.length).take 1).any p ||
      ((cs.drop text.length).take 1).any q).toNat = a.length ∧
      Numerals a cs ∧ text <+: a := by
  have hnext := numerals_filter_take hp (cs.drop text.length)
  refine ⟨_, ?_, htext.append hnext, List.prefix_append _ _⟩
  refine Eq.trans (congrArg (_ + ·) ?_) List.length_append.symm
  have hlength : ((cs.drop text.length).take 1).length ≤ 1 := by
    rw [List.length_take]
    omega
  generalize (cs.drop text.length).take 1 = next at hlength ⊢
  match next, hlength with
  | [], _ => rfl
  | [c], _ => cases hpc : p c <;> cases hqc : q c <;> simp [hpc, hqc]

/-- The digits of a number with its fraction and its exponent. -/
theorem numerals_decimalText (cs : List Char) :
    Numerals (cs.takeWhile isDigitOrGap ++ fractionPart (cs.drop (cs.takeWhile isDigitOrGap).length) ++
      exponentPart (cs.drop ((cs.takeWhile isDigitOrGap).length +
        (fractionPart (cs.drop (cs.takeWhile isDigitOrGap).length)).length))) cs := by
  refine Numerals.append (Numerals.append ?_ (numerals_fractionPart _)) ?_
  · exact numerals_takeWhile (fun _ => isFigure_of_isDigitOrGap) cs
  · rw [List.length_append]
    exact numerals_exponentPart _

theorem readDecimal_ok {cs : List Char} {t : Token} {n : Nat} (h : readDecimal cs = .ok (t, n)) :
    t.IsNumber ∧ ∃ a, n = a.length ∧ Numerals a cs ∧ cs.takeWhile isDigitOrGap <+: a := by
  unfold readDecimal at h
  dsimp only at h
  have htext := numerals_decimalText cs
  generalize hw : cs.takeWhile isDigitOrGap = whole at *
  generalize hf : fractionPart (cs.drop whole.length) = fraction at *
  generalize he : exponentPart (cs.drop (whole.length + fraction.length)) = exponent at *
  -- whatever letter ends the number is one that numbers are made of
  have hletter (c : Char) (hc : ("dDfF".toList.contains c || ("gG".toList.contains c ||
      !(!fraction.isEmpty || !exponent.isEmpty) && "lLiI".toList.contains c)) = true) : isFigure c =
        true := by
    simp only [Bool.or_eq_true, Bool.and_eq_true] at hc
    rcases hc with hc | hc | ⟨_, hc⟩
    · exact isFigure_of_contains "dDfF".toList (forall_mem_of_all (by decide)) c hc
    · exact isFigure_of_contains "gG".toList (forall_mem_of_all (by decide)) c hc
    · exact isFigure_of_contains "lLiI".toList (forall_mem_of_all (by decide)) c hc
  obtain ⟨a, ha, hnum, hpre⟩ := numerals_letter htext hletter
  have hwhole : whole <+: a := by
    rw [List.append_assoc] at hpre
    exact (List.prefix_append _ _).trans hpre
  split at h
  · split at h
    · obtain ⟨rfl, rfl⟩ := Prod.mk.inj (Except.ok.inj h)
      exact ⟨.inr ⟨_, rfl⟩, a, ha, hnum, hwhole⟩
    · cases h
  · split at h
    · obtain ⟨rfl, rfl⟩ := Prod.mk.inj (Except.ok.inj h)
      exact ⟨.inl ⟨_, rfl⟩, a, ha, hnum, hwhole⟩
    · cases h

theorem readNumber_ok {c : Char} {cs : List Char} {t : Token} {n : Nat} (hc : c.isDigit = true)
    (h : readNumber (c :: cs) = .ok (t, n)) :
    t.IsNumber ∧ ∃ a, n = a.length ∧ Numerals a (c :: cs) ∧ a ≠ [] := by
  have hex {d : Char} {ds : List Char} (hd : isFigure d = true) (h : readHexadecimal ds = .ok (t, n)) :
      t.IsNumber ∧ ∃ a, n = a.length ∧ Numerals a ('0' :: d :: ds) ∧ a ≠ [] := by
    obtain ⟨ht, a, rfl, ha⟩ := readHexadecimal_ok h
    exact ⟨ht, '0' :: d :: a, by simp only [List.length_cons]; omega,
      numerals_cons (by decide) (numerals_cons hd ha), by simp⟩
  unfold readNumber at h
  split at h
  · rename_i he
    exact he ▸ hex (by decide) h
  · rename_i he
    exact he ▸ hex (by decide) h
  · obtain ⟨ht, a, rfl, ha, hpre⟩ := readDecimal_ok h
    refine ⟨ht, a, rfl, ha, ?_⟩
    rintro rfl
    simp [isDigitOrGap, hc] at hpre

end UpdaterBootstrap
