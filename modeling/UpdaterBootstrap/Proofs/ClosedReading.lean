import UpdaterBootstrap.Proofs.Nesting

/-!
# Tokens up to a closing parenthesis

The reader of an argument list never looks past the parenthesis that closes it. Of two lists of
tokens that are the same up to there it reads the same, with the same faults
(`readArguments_upToClosing`).
-/

namespace UpdaterBootstrap

/-- The same tokens up to the parenthesis that closes the `depth + 1` open ones, then `post` and
`post'`. -/
inductive UpToClosing (post post' : List Placed) : Nat → List Placed → List Placed → Prop
  | last {t : Placed} (ht : t.token = .symbol ')') : UpToClosing post post' 0 (t :: post) (t :: post')
  | opening {t : Placed} {depth : Nat} {ts us : List Placed} (ht : t.token = .symbol '(')
      (h : UpToClosing post post' (depth + 1) ts us) : UpToClosing post post' depth (t :: ts) (t :: us)
  | closing {t : Placed} {depth : Nat} {ts us : List Placed} (ht : t.token = .symbol ')')
      (h : UpToClosing post post' depth ts us) : UpToClosing post post' (depth + 1) (t :: ts) (t :: us)
  | other {t : Placed} {depth : Nat} {ts us : List Placed} (ht : ¬ IsParenthesis t.token)
      (h : UpToClosing post post' depth ts us) : UpToClosing post post' depth (t :: ts) (t :: us)

/-- What the first token is to the search for the closing parenthesis. -/
theorem afterClosing?_cases {depth : Nat} {t : Placed} {ts post : List Placed}
    (h : afterClosing? depth (t :: ts) = some post) :
    (t.token = .symbol ')' ∧ depth = 0 ∧ ts = post) ∨
      ∃ depth', afterClosing? depth' ts = some post ∧
        ∀ post' us, UpToClosing post post' depth' ts us →
          UpToClosing post post' depth (t :: ts) (t :: us) := by
  have first {c : Char} (ht : t.token = .symbol c) : isSymbolAt c (t :: ts) = true := isSymbolAt_eq.2 ht
  by_cases hopen : t.token = .symbol '('
  · rw [afterClosing?_open (first hopen)] at h
    exact .inr ⟨depth + 1, h, fun _ _ => .opening hopen⟩
  by_cases hclose : t.token = .symbol ')'
  · cases depth with
    | zero =>
      rw [afterClosing?_last (first hclose)] at h
      exact .inl ⟨hclose, rfl, Option.some.inj h⟩
    | succ depth =>
      rw [afterClosing?_close (first hclose)] at h
      exact .inr ⟨depth, h, fun _ _ => .closing hclose⟩
  · have hother : ¬ IsParenthesis t.token := not_or.2 ⟨hopen, hclose⟩
    have hsame : SameDepth (t :: ts) ts := sameDepth_tail hother
    exact .inr ⟨depth, (hsame depth).symm.trans h, fun _ _ => .other hother⟩

theorem length_lt_of_afterClosing? {depth : Nat} {ts post : List Placed}
    (h : afterClosing? depth ts = some post) :
    post.length < ts.length := by
  induction ts generalizing depth with
  | nil => cases h
  | cons t ts ih =>
    rcases afterClosing?_cases h with ⟨_, _, rfl⟩ | ⟨depth', hrest, _⟩
    · exact Nat.lt_succ_self _
    · exact Nat.lt_succ_of_lt (ih hrest)

theorem upToClosing_of_afterClosing? {depth : Nat} {a post : List Placed}
    (h : afterClosing? depth (a ++ post) = some post)
    (post' : List Placed) : UpToClosing post post' depth (a ++ post) (a ++ post') := by
  induction a generalizing depth with
  | nil => exact absurd (length_lt_of_afterClosing? h) (Nat.lt_irrefl _)
  | cons t a ih =>
    rcases afterClosing?_cases h with ⟨ht, rfl, ha⟩ | ⟨depth', hrest, hfirst⟩
    · obtain rfl : a = [] := List.append_left_eq_self.1 ha
      exact .last ht
    · exact hfirst post' _ (ih hrest)

section
variable {post post' : List Placed}

namespace UpToClosing

variable {depth : Nat} {ts us : List Placed} (h : UpToClosing post post' depth ts us)
include h

theorem current_eq : current us = current ts := by
  cases h <;> rfl

theorem isSymbolAt_eq (c : Char) : isSymbolAt c us = isSymbolAt c ts := by
  rw [isSymbolAt, isSymbolAt, h.current_eq]

theorem length_eq (hpost : post.length = post'.length) : us.length = ts.length := by
  induction h with
  | last ht => rw [List.length_cons, List.length_cons, hpost]
  | opening ht h ih => rw [List.length_cons, List.length_cons, ih]
  | closing ht h ih => rw [List.length_cons, List.length_cons, ih]
  | other ht h ih => rw [List.length_cons, List.length_cons, ih]

theorem tail (ht : ¬ IsParenthesis (current ts).token) : UpToClosing post post' depth ts.tail us.tail := by
  cases h with
  | last hlast => exact absurd (.inr hlast) ht
  | opening hopen h => exact absurd (.inl hopen) ht
  | closing hclose h => exact absurd (.inr hclose) ht
  | other _ h => exact h

theorem tail_symbol {c : Char} (hs : isSymbolAt c ts = true) (h₁ : c ≠ '(') (h₂ : c ≠ ')') :
    UpToClosing post post' depth ts.tail us.tail := by
  apply h.tail
  rw [IsParenthesis, UpdaterBootstrap.isSymbolAt_eq.1 hs, Token.symbol.injEq, Token.symbol.injEq]
  exact fun hp => hp.elim h₁ h₂

theorem tail_open (hs : isSymbolAt '(' ts = true) : UpToClosing post post' (depth + 1) ts.tail us.tail := by
  have ht := UpdaterBootstrap.isSymbolAt_eq.1 hs
  cases h with
  | last hlast =>
    rw [current, List.headD_cons, hlast] at ht
    cases ht
  | opening _ h => exact h
  | closing hclose h =>
    rw [current, List.headD_cons, hclose] at ht
    cases ht
  | other hother h => exact absurd (.inl ht) hother

theorem tail_word (hs : startsWithWord ts = true) : UpToClosing post post' depth ts.tail us.tail := by
  apply h.tail
  rintro (ht | ht) <;> rw [startsWithWord, ht] at hs <;> cases hs

end UpToClosing

theorem UpToClosing.tail_close {depth : Nat} {ts us : List Placed}
    (h : UpToClosing post post' (depth + 1) ts us)
    (hs : isSymbolAt ')' ts = true) : UpToClosing post post' depth ts.tail us.tail := by
  have ht := UpdaterBootstrap.isSymbolAt_eq.1 hs
  cases h with
  | opening hopen h =>
    rw [current, List.headD_cons, hopen] at ht
    cases ht
  | closing _ h => exact h
  | other hother h => exact absurd (.inr ht) hother

theorem UpToClosing.tail_last {ts us : List Placed} (h : UpToClosing post post' 0 ts us)
    (hs : isSymbolAt ')' ts = true) :
    ts.tail = post ∧ us.tail = post' := by
  have ht := UpdaterBootstrap.isSymbolAt_eq.1 hs
  cases h with
  | last hlast => exact ⟨rfl, rfl⟩
  | opening hopen h =>
    rw [current, List.headD_cons, hopen] at ht
    cases ht
  | other hother h => exact absurd (.inr ht) hother

/-! ## The same reading -/

variable (post post') in
inductive SameRead {α : Type} (depth : Nat) :
    Except UnitError (Parsed α) → Except UnitError (Parsed α) → Prop
  | fault (e : UnitError) : SameRead depth (.error e) (.error e)
  | value {a : α} {ts us : List Placed} (h : UpToClosing post post' depth ts us) :
      SameRead depth (.ok (a, ts)) (.ok (a, us))

section
variable {α β γ : Type} {depth depth' : Nat} {ts us : List Placed}

theorem SameRead.bind {x y : Except UnitError (Parsed α)} {f g : Parsed α → Except UnitError (Parsed β)}
    (h : SameRead post post' depth x y)
    (hnext : ∀ a ts us, UpToClosing post post' depth ts us →
      SameRead post post' depth' (f (a, ts)) (g (a, us))) :
    SameRead post post' depth' (x >>= f) (y >>= g) := by
  cases h with
  | fault e => exact .fault e
  | value h => exact hnext _ _ _ h

theorem SameRead.after (x : Except UnitError γ) {f g : γ → Except UnitError (Parsed β)}
    (hnext : ∀ a, SameRead post post' depth (f a) (g a)) : SameRead post post' depth (x >>= f) (x >>= g) := by
  cases x with
  | error e => exact .fault e
  | ok a => exact hnext a

theorem SameRead.unexpected (h : UpToClosing post post' depth' ts us) (expected : Expected) :
    SameRead post post' depth (unexpected expected ts : Except UnitError (Parsed α))
      (unexpected expected us) := by
  rw [UpdaterBootstrap.unexpected, UpdaterBootstrap.unexpected, h.current_eq]
  exact .fault _

theorem SameRead.expect (h : UpToClosing post post' depth' ts us) {c : Char}
    {f g : List Placed → Except UnitError (Parsed β)}
    (hnext : isSymbolAt c ts = true → SameRead post post' depth (f ts.tail) (g us.tail)) :
    SameRead post post' depth (expectSymbol c ts >>= f) (expectSymbol c us >>= g) := by
  unfold expectSymbol
  rw [h.isSymbolAt_eq]
  by_cases hc : isSymbolAt c ts = true
  · rw [if_pos hc, if_pos hc]
    exact hnext hc
  · rw [if_neg hc, if_neg hc, UpdaterBootstrap.unexpected, UpdaterBootstrap.unexpected, h.current_eq]
    exact .fault _

end

/-! ## Names -/

section
variable {depth : Nat} {ts us : List Placed} (h : UpToClosing post post' depth ts us)
include h

theorem readWord_upToClosing : SameRead post post' depth (readWord ts) (readWord us) := by
  unfold readWord
  rw [h.current_eq]
  split
  · rename_i name hword
    apply SameRead.value
    apply h.tail
    rw [hword]
    rintro (ht | ht) <;> cases ht
  · exact .unexpected h .identifier

omit h in
theorem UpToClosing.cons_of_ne {t : Placed} (h : UpToClosing post post' depth (t :: ts) us)
    (ht : ¬ IsParenthesis t.token) :
    ∃ us', us = t :: us' ∧ UpToClosing post post' depth ts us' := by
  cases h with
  | last hlast => exact absurd (.inr hlast) ht
  | opening hopen h => exact absurd (.inl hopen) ht
  | closing hclose h => exact absurd (.inr hclose) ht
  | other _ h => exact ⟨_, rfl, h⟩

omit h in
theorem UpToClosing.segment {line line' : Nat} {name : String}
    (h : UpToClosing post post' depth (⟨.symbol '.', line⟩ :: ⟨.word name, line'⟩ :: ts) us) :
    ∃ us', us = ⟨.symbol '.', line⟩ :: ⟨.word name, line'⟩ :: us' ∧
      UpToClosing post post' depth ts us' := by
  obtain ⟨us', rfl, hname⟩ := h.cons_of_ne (by rintro (ht | ht) <;> cases ht)
  obtain ⟨us'', rfl, hrest⟩ := hname.cons_of_ne (by rintro (ht | ht) <;> cases ht)
  exact ⟨us'', rfl, hrest⟩

theorem UpToClosing.symm : UpToClosing post' post depth us ts := by
  induction h with
  | last ht => exact .last ht
  | opening ht _ ih => exact .opening ht ih
  | closing ht _ ih => exact .closing ht ih
  | other ht _ ih => exact .other ht ih

theorem readSegments_upToClosing :
    ∃ more ts' us', readSegments ts = (more, ts') ∧ readSegments us = (more, us') ∧
      UpToClosing post post' depth ts' us' := by
  fun_induction readSegments ts generalizing us with
  | case1 line name line' ts more rest heq ih =>
    obtain ⟨us', rfl, hrest⟩ := h.segment
    obtain ⟨more', ts', us'', hts, hus, hlast⟩ := ih hrest
    obtain ⟨rfl, rfl⟩ := Prod.mk.inj (heq.symm.trans hts)
    exact ⟨_, _, us'', rfl, by rw [readSegments, hus], hlast⟩
  | case2 ts hne =>
    refine ⟨"", ts, us, rfl, ?_, h⟩
    unfold readSegments
    split
    · obtain ⟨ts', rfl, -⟩ := h.symm.segment
      exact absurd rfl (hne _ _ _ _)
    · rfl

theorem readDottedName_upToClosing : SameRead post post' depth (readDottedName ts) (readDottedName us) := by
  apply (readWord_upToClosing h).bind
  intro first ts us h
  obtain ⟨more, ts', us', hts, hus, hrest⟩ := readSegments_upToClosing h
  dsimp only
  rw [hts, hus]
  exact .value hrest

end

/-! ## Constants -/

variable (post post') in
structure ReadsSame (fuel : Nat) : Prop where
  sum : ∀ {depth : Nat} {ts us : List Placed}, UpToClosing post post' depth ts us →
    SameRead post post' depth (readSum fuel ts) (readSum fuel us)
  sumRest : ∀ {depth : Nat} {ts us : List Placed} (left : Constant), UpToClosing post post' depth ts us →
    SameRead post post' depth (readSumRest fuel left ts) (readSumRest fuel left us)
  product : ∀ {depth : Nat} {ts us : List Placed}, UpToClosing post post' depth ts us →
    SameRead post post' depth (readProduct fuel ts) (readProduct fuel us)
  productRest : ∀ {depth : Nat} {ts us : List Placed} (left : Constant), UpToClosing post post' depth ts us →
    SameRead post post' depth (readProductRest fuel left ts) (readProductRest fuel left us)
  signed : ∀ {depth : Nat} {ts us : List Placed}, UpToClosing post post' depth ts us →
    SameRead post post' depth (readSigned fuel ts) (readSigned fuel us)
  primary : ∀ {depth : Nat} {ts us : List Placed}, UpToClosing post post' depth ts us →
    SameRead post post' depth (readPrimary fuel ts) (readPrimary fuel us)
  items : ∀ {depth : Nat} {ts us : List Placed} {close : Char} (done : List Constant), close ≠ '(' →
    close ≠ ')' →
    UpToClosing post post' depth ts us →
    SameRead post post' depth (readItems fuel close done ts) (readItems fuel close done us)

section
variable {fuel depth : Nat} {ts us : List Placed} (ih : ReadsSame post post' fuel)
  (h : UpToClosing post post' depth ts us)
include ih h

theorem readSum_upToClosing : SameRead post post' depth (readSum (fuel + 1) ts) (readSum (fuel + 1) us) := by
  rw [readSum, readSum]
  apply (ih.product h).bind
  intro left ts us h
  exact ih.sumRest left h

omit ih in
theorem sumOperator?_upToClosing : sumOperator? us = sumOperator? ts := by
  rw [sumOperator?, sumOperator?, h.isSymbolAt_eq, h.isSymbolAt_eq]

omit ih in
theorem productOperator?_upToClosing : productOperator? us = productOperator? ts := by
  rw [productOperator?, productOperator?, h.isSymbolAt_eq, h.isSymbolAt_eq]

theorem readSumRest_upToClosing (left : Constant) :
    SameRead post post' depth (readSumRest (fuel + 1) left ts) (readSumRest (fuel + 1) left us) := by
  rw [readSumRest, readSumRest, sumOperator?_upToClosing h, h.current_eq]
  cases hop : sumOperator? ts with
  | none => exact .value h
  | some op =>
    have htail : UpToClosing post post' depth ts.tail us.tail := by
      rcases sumOperator?_symbol hop with hs | hs <;> exact h.tail_symbol hs (by decide) (by decide)
    apply (ih.product htail).bind
    intro right ts' us' h'
    apply SameRead.after
    intro value
    exact ih.sumRest value h'

theorem readProduct_upToClosing :
    SameRead post post' depth (readProduct (fuel + 1) ts) (readProduct (fuel + 1) us) := by
  rw [readProduct, readProduct]
  apply (ih.signed h).bind
  intro left ts us h
  exact ih.productRest left h

theorem readProductRest_upToClosing (left : Constant) :
    SameRead post post' depth (readProductRest (fuel + 1) left ts) (readProductRest (fuel + 1) left us) := by
  rw [readProductRest, readProductRest, productOperator?_upToClosing h, h.current_eq]
  cases hop : productOperator? ts with
  | none => exact .value h
  | some op =>
    have htail : UpToClosing post post' depth ts.tail us.tail := by
      rcases productOperator?_symbol hop with hs | hs <;> exact h.tail_symbol hs (by decide) (by decide)
    apply (ih.signed htail).bind
    intro right ts' us' h'
    apply SameRead.after
    intro value
    exact ih.productRest value h'

theorem readSigned_upToClosing :
    SameRead post post' depth (readSigned (fuel + 1) ts) (readSigned (fuel + 1) us) := by
  rw [readSigned, readSigned, h.isSymbolAt_eq, h.isSymbolAt_eq, h.current_eq]
  by_cases hminus : isSymbolAt '-' ts = true
  · rw [if_pos hminus, if_pos hminus]
    apply (ih.signed (h.tail_symbol hminus (by decide) (by decide))).bind
    intro operand ts' us' h'
    apply SameRead.after
    intro value
    exact .value h'
  · rw [if_neg hminus, if_neg hminus]
    apply ih.primary
    split
    · exact h.tail_symbol ‹_› (by decide) (by decide)
    · exact h

theorem readPrimary_upToClosing :
    SameRead post post' depth (readPrimary (fuel + 1) ts) (readPrimary (fuel + 1) us) := by
  have constant {t : Token} (ht : (current ts).token = t) (hne : ¬ IsParenthesis t) (c : Constant) :
      SameRead post post' depth (.ok (c, ts.tail)) (.ok (c, us.tail)) :=
    .value (h.tail (ht ▸ hne))
  have symbol {c : Char} (ht : (current ts).token = .symbol c) : isSymbolAt c ts = true := isSymbolAt_eq.2 ht
  -- both readers see the same first token, so they take the same case
  rw [readPrimary, readPrimary, h.current_eq]
  split
  · rename_i s hs
    exact constant hs (by rintro (ht | ht) <;> cases ht) _
  · rename_i n hn
    exact constant hn (by rintro (ht | ht) <;> cases ht) _
  · rename_i x hx
    exact constant hx (by rintro (ht | ht) <;> cases ht) _
  · rename_i first hw
    split
    · exact constant hw (by rintro (ht | ht) <;> cases ht) _
    · exact constant hw (by rintro (ht | ht) <;> cases ht) _
    · apply (readDottedName_upToClosing h).bind
      intro name ts us h
      exact .value h
  · rename_i opening hopening
    split
    · exact ih.items [] (by decide) (by decide) (h.tail_symbol (symbol hopening) (by decide) (by decide))
    · exact ih.items [] (by decide) (by decide) (h.tail_symbol (symbol hopening) (by decide) (by decide))
    · apply (ih.sum (h.tail_open (symbol hopening))).bind
      intro value ts us h
      apply SameRead.expect h
      intro hclose
      exact .value (h.tail_close hclose)
    · exact .unexpected h .constant
  · exact .unexpected h .constant

theorem readItems_upToClosing {close : Char} (done : List Constant) (h₁ : close ≠ '(') (h₂ : close ≠ ')') :
    SameRead post post' depth (readItems (fuel + 1) close done ts) (readItems (fuel + 1) close done us) := by
  rw [readItems, readItems, h.isSymbolAt_eq]
  by_cases hclose : isSymbolAt close ts = true
  · rw [if_pos hclose, if_pos hclose]
    exact .value (h.tail_symbol hclose h₁ h₂)
  · rw [if_neg hclose, if_neg hclose]
    apply (ih.sum h).bind
    intro item ts us h
    dsimp only
    rw [h.isSymbolAt_eq]
    by_cases hcomma : isSymbolAt ',' ts = true
    · rw [if_pos hcomma, if_pos hcomma]
      exact ih.items _ h₁ h₂ (h.tail_symbol hcomma (by decide) (by decide))
    · rw [if_neg hcomma, if_neg hcomma]
      apply SameRead.expect h
      intro hend
      exact .value (h.tail_symbol hend h₁ h₂)

end

theorem readsSame (fuel : Nat) : ReadsSame post post' fuel := by
  induction fuel with
  | zero =>
    constructor
    case items => exact fun _ _ _ h => .unexpected h .constant
    case sumRest => exact fun _ h => .unexpected h .constant
    case productRest => exact fun _ h => .unexpected h .constant
    all_goals exact fun h => .unexpected h .constant
  | succ fuel ih =>
    exact {
      sum := readSum_upToClosing ih
      sumRest := fun left h => readSumRest_upToClosing ih h left
      product := readProduct_upToClosing ih
      productRest := fun left h => readProductRest_upToClosing ih h left
      signed := readSigned_upToClosing ih
      primary := readPrimary_upToClosing ih
      items := fun done h₁ h₂ h => readItems_upToClosing ih h done h₁ h₂ }

/-! ## Argument lists -/

section
variable (hpost : post.length = post'.length) {depth : Nat} {ts us : List Placed}
include hpost

theorem readConstant_upToClosing (h : UpToClosing post post' depth ts us) :
    SameRead post post' depth (readConstant ts) (readConstant us) := by
  rw [readConstant, readConstant, h.length_eq hpost]
  exact (readsSame _).sum h

theorem readNamedArguments_upToClosing (fuel : Nat) (arguments : List (String × Constant))
    (h : UpToClosing post post' depth ts us) :
    SameRead post post' depth (readNamedArguments fuel arguments ts)
      (readNamedArguments fuel arguments us) := by
  induction fuel generalizing arguments ts us with
  | zero => exact .unexpected h .identifier
  | succ fuel ih =>
    rw [readNamedArguments, readNamedArguments]
    apply (readWord_upToClosing h).bind
    intro field ts us h
    apply SameRead.expect h
    intro heq
    apply (readConstant_upToClosing hpost (h.tail_symbol heq (by decide) (by decide))).bind
    intro value ts us h
    dsimp only
    rw [h.isSymbolAt_eq]
    by_cases hcomma : isSymbolAt ',' ts = true
    · have htail := h.tail_symbol hcomma (by decide) (by decide)
      rw [hcomma, htail.isSymbolAt_eq, if_pos rfl, if_pos rfl]
      split
      · exact .value htail
      · exact ih _ htail
    · rw [Bool.not_eq_true] at hcomma
      rw [hcomma]
      exact .value h

theorem readBetween_upToClosing (h : UpToClosing post post' depth ts us) :
    SameRead post post' depth (readBetween ts) (readBetween us) := by
  have hnamed : startsNamedArgument us = startsNamedArgument ts := by
    unfold startsNamedArgument
    by_cases hword : startsWithWord ts = true
    · rw [(h.tail_word hword).isSymbolAt_eq, startsWithWord, startsWithWord, h.current_eq]
    · rw [Bool.not_eq_true] at hword
      rw [hword, startsWithWord, h.current_eq, ← startsWithWord, hword]
      rfl
  unfold readBetween
  rw [hnamed, h.isSymbolAt_eq, h.length_eq hpost]
  split
  · exact readNamedArguments_upToClosing hpost _ [] h
  · split
    · exact .value h
    · apply (readConstant_upToClosing hpost h).bind
      intro value ts us h
      exact .value h

/-- An argument list is read up to its closing parenthesis, or there is the same fault in it. -/
theorem readArguments_upToClosing (h : UpToClosing post post' 0 ts us) {t : Placed}
    (ht : t.token = .symbol '(') :
    (∃ e, readArguments (t :: ts) = .error e ∧ readArguments (t :: us) = .error e) ∨
      ∃ arguments, readArguments (t :: ts) = .ok (arguments, post) ∧
        readArguments (t :: us) = .ok (arguments, post') := by
  have hopen (ts : List Placed) : isSymbolAt '(' (t :: ts) = true := isSymbolAt_eq.2 ht
  rw [readArguments_open (hopen ts), readArguments_open (hopen us), List.tail_cons, List.tail_cons]
  have hbetween := readBetween_upToClosing hpost h
  generalize readBetween ts = x, readBetween us = y at hbetween ⊢
  cases hbetween with
  | fault e => exact .inl ⟨e, rfl, rfl⟩
  | @value arguments ts us h =>
    rw [ok_bind, ok_bind, expectSymbol, expectSymbol, h.isSymbolAt_eq]
    by_cases hclose : isSymbolAt ')' ts = true
    · obtain ⟨hts, hus⟩ := h.tail_last hclose
      rw [if_pos hclose, if_pos hclose, hts, hus]
      exact .inr ⟨arguments, rfl, rfl⟩
    · rw [if_neg hclose, if_neg hclose, unexpected, unexpected, h.current_eq]
      exact .inl ⟨_, rfl, rfl⟩

end

end

end UpdaterBootstrap
