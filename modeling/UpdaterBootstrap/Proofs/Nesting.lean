import UpdaterBootstrap.Proofs.Expression

/-!
# Parentheses in tokens

An expression leaves as many parentheses open as it found, so the argument list of an annotation
ends at the parenthesis that closes its first one.
-/

namespace UpdaterBootstrap

/-- The tokens after the parenthesis that closes the `depth + 1` open ones. -/
def afterClosing? (depth : Nat) : List Placed → Option (List Placed)
  | [] => none
  | t :: ts =>
    if t.token == .symbol '(' then afterClosing? (depth + 1) ts
    else if t.token == .symbol ')' then
      match depth with
      | 0 => some ts
      | d + 1 => afterClosing? d ts
    else afterClosing? depth ts

def SameDepth (ts rest : List Placed) : Prop :=
  ∀ depth, afterClosing? depth ts = afterClosing? depth rest

theorem SameDepth.trans {ts mid rest : List Placed} (h : SameDepth ts mid) (h' : SameDepth mid rest) :
    SameDepth ts rest :=
  fun depth => (h depth).trans (h' depth)

theorem sameDepth_refl (ts : List Placed) : SameDepth ts ts := fun _ => rfl

def IsParenthesis (t : Token) : Prop :=
  t = .symbol '(' ∨ t = .symbol ')'

theorem sameDepth_tail {ts : List Placed} (h : ¬ IsParenthesis (current ts).token) :
    SameDepth ts ts.tail := by
  cases ts with
  | nil => exact sameDepth_refl []
  | cons t ts =>
    intro depth
    have h₁ : t.token ≠ .symbol '(' := fun e => h (.inl e)
    have h₂ : t.token ≠ .symbol ')' := fun e => h (.inr e)
    simp [afterClosing?, h₁, h₂]

theorem isSymbolAt_eq {c : Char} {ts : List Placed} :
    isSymbolAt c ts = true ↔ (current ts).token = .symbol c := by
  simp [isSymbolAt]

theorem sameDepth_symbol {c : Char} {ts : List Placed} (h : isSymbolAt c ts = true) (h₁ : c ≠ '(')
    (h₂ : c ≠ ')') : SameDepth ts ts.tail := by
  refine sameDepth_tail fun hp => ?_
  rw [IsParenthesis, isSymbolAt_eq.1 h, Token.symbol.injEq, Token.symbol.injEq] at hp
  exact hp.elim h₁ h₂

theorem afterClosing?_open {ts : List Placed} (h : isSymbolAt '(' ts = true) (depth : Nat) :
    afterClosing? depth ts = afterClosing? (depth + 1) ts.tail := by
  cases ts with
  | nil => cases h
  | cons t ts =>
    have : t.token = .symbol '(' := isSymbolAt_eq.1 h
    simp [afterClosing?, this]

theorem afterClosing?_close {ts : List Placed} (h : isSymbolAt ')' ts = true) (depth : Nat) :
    afterClosing? (depth + 1) ts = afterClosing? depth ts.tail := by
  cases ts with
  | nil => cases h
  | cons t ts =>
    have : t.token = .symbol ')' := isSymbolAt_eq.1 h
    simp [afterClosing?, this]

theorem afterClosing?_last {ts : List Placed} (h : isSymbolAt ')' ts = true) :
    afterClosing? 0 ts = some ts.tail := by
  cases ts with
  | nil => cases h
  | cons t ts =>
    have : t.token = .symbol ')' := isSymbolAt_eq.1 h
    simp [afterClosing?, this]

theorem sameDepth_parentheses {ts mid : List Placed} (ho : isSymbolAt '(' ts = true)
    (h : SameDepth ts.tail mid) (hc : isSymbolAt ')' mid = true) : SameDepth ts mid.tail :=
  fun depth => by rw [afterClosing?_open ho, h, afterClosing?_close hc]

theorem sameDepth_readSegments (ts : List Placed) : SameDepth ts (readSegments ts).2 := by
  fun_induction readSegments ts with
  | case1 line name line' ts more rest heq ih =>
    simp only [heq] at ih
    exact .trans (fun depth => rfl) ih
  | case2 ts => exact sameDepth_refl ts

theorem sameDepth_readWord {ts rest : List Placed} {name : String} (h : readWord ts = .ok (name, rest)) :
    SameDepth ts rest := by
  unfold readWord at h
  split at h
  · rename_i hword
    obtain ⟨rfl, rfl⟩ := Prod.mk.inj (Except.ok.inj h)
    refine sameDepth_tail ?_
    rw [hword]
    rintro (h | h) <;> cases h
  · cases h

theorem sameDepth_readDottedName {ts rest : List Placed} {name : String}
    (h : readDottedName ts = .ok (name, rest)) : SameDepth ts rest := by
  obtain ⟨⟨first, mid⟩, hw, h⟩ := bind_eq_ok.1 h
  obtain ⟨rfl, rfl⟩ := Prod.mk.inj (pure_eq_ok.1 h)
  exact (sameDepth_readWord hw).trans (sameDepth_readSegments mid)

/-- Lists of items end at a bracket or a brace, not at a parenthesis. -/
def Rule.EndsApart : Rule → Prop
  | .items c => c ≠ '(' ∧ c ≠ ')'
  | _ => True

theorem Spells.sameDepth {rule : Rule} {es : List Expression} {ts rest : List Placed}
    (h : Spells rule es ts rest) (hr : rule.EndsApart) : SameDepth ts rest := by
  have token {ts : List Placed} {t : Token} (ht : (current ts).token = t) (hne : ¬ IsParenthesis t) :
      SameDepth ts ts.tail :=
    sameDepth_tail (ht ▸ hne)
  induction h with
  | product _ ih => exact ih trivial
  | sum _ hop _ iha ihb =>
    refine .trans (iha trivial) (.trans ?_ (ihb trivial))
    rcases sumOperator?_symbol hop with h | h <;> exact sameDepth_symbol h (by decide) (by decide)
  | signed _ ih => exact ih trivial
  | multiple _ hop _ iha ihb =>
    refine .trans (iha trivial) (.trans ?_ (ihb trivial))
    rcases productOperator?_symbol hop with h | h <;> exact sameDepth_symbol h (by decide) (by decide)
  | minus hs _ ih => exact .trans (sameDepth_symbol hs (by decide) (by decide)) (ih trivial)
  | plus hs _ ih => exact .trans (sameDepth_symbol hs (by decide) (by decide)) (ih trivial)
  | primary _ ih => exact ih trivial
  | text ht => exact token ht (by rintro (h | h) <;> cases h)
  | integer ht => exact token ht (by rintro (h | h) <;> cases h)
  | decimal ht => exact token ht (by rintro (h | h) <;> cases h)
  | true ht => exact token ht (by rintro (h | h) <;> cases h)
  | false ht => exact token ht (by rintro (h | h) <;> cases h)
  | reference _ _ _ hn => exact sameDepth_readDottedName hn
  | brackets hs _ ih =>
    exact .trans (sameDepth_symbol hs (by decide) (by decide)) (ih ⟨by decide, by decide⟩)
  | braces hs _ ih =>
    exact .trans (sameDepth_symbol hs (by decide) (by decide)) (ih ⟨by decide, by decide⟩)
  | parentheses hs _ hc ih => exact sameDepth_parentheses hs (ih trivial) hc
  | close hc => exact sameDepth_symbol hc hr.1 hr.2
  | last _ hc ih => exact .trans (ih trivial) (sameDepth_symbol hc hr.1 hr.2)
  | item _ hc _ ih ihs =>
    exact .trans (ih trivial) (.trans (sameDepth_symbol hc (by decide) (by decide)) (ihs hr))

theorem sameDepth_readConstant {ts rest : List Placed} {c : Constant} (h : readConstant ts = .ok (c, rest)) :
    SameDepth ts rest := by
  obtain ⟨e, he, _⟩ := readConstant_spells h
  exact he.sameDepth trivial

/-! ## Argument lists -/

theorem sameDepth_readNamedArguments {fuel : Nat} {arguments result : List (String × Constant)}
    {ts rest : List Placed} (h : readNamedArguments fuel arguments ts = .ok (result, rest)) :
    SameDepth ts rest := by
  induction fuel generalizing arguments ts with
  | zero => cases h
  | succ fuel ih =>
    rw [readNamedArguments] at h
    obtain ⟨⟨field, ts₁⟩, hw, hfield⟩ := bind_eq_ok.1 h
    obtain ⟨ts₂, he, hvalue⟩ := bind_eq_ok.1 hfield
    obtain ⟨⟨value, ts₃⟩, hv, hend⟩ := bind_eq_ok.1 hvalue
    obtain ⟨hs, rfl⟩ := expectSymbol_eq_ok he
    have hstart : SameDepth ts ts₃ :=
      (sameDepth_readWord hw).trans
        ((sameDepth_symbol hs (by decide) (by decide)).trans (sameDepth_readConstant hv))
    have hcomma (hc : isSymbolAt ',' ts₃ = true) : SameDepth ts₃ ts₃.tail :=
      sameDepth_symbol hc (by decide) (by decide)
    dsimp only at hend
    split at hend
    · obtain ⟨rfl, rfl⟩ := Prod.mk.inj (pure_eq_ok.1 hend)
      refine hstart.trans ?_
      split
      · exact hcomma ‹_›
      · exact sameDepth_refl ts₃
    · rename_i hc
      simp only [Bool.or_eq_true, Bool.not_eq_true', not_or, Bool.not_eq_false] at hc
      exact hstart.trans ((hcomma hc.1).trans (ih hend))

def readBetween (ts : List Placed) : Except UnitError (Parsed (List (String × Constant))) :=
  if startsNamedArgument ts then readNamedArguments ts.length [] ts
  else if isSymbolAt ')' ts then .ok ([], ts)
  else do
    let (value, ts) ← readConstant ts
    .ok ([(positionalField, value)], ts)

theorem readArguments_open {ts : List Placed} (h : isSymbolAt '(' ts = true) :
    readArguments ts = (readBetween ts.tail >>= fun r => (expectSymbol ')' r.2).map (r.1, ·)) := by
  rw [readArguments, h, Bool.not_true, if_neg Bool.false_ne_true, readBetween]
  have close (r : Parsed (List (String × Constant))) :
      (expectSymbol ')' r.2 >>= fun ts => pure (r.1, ts)) = (expectSymbol ')' r.2).map (r.1, ·) := by
    cases expectSymbol ')' r.2 <;> rfl
  simp only [← close]
  split
  · rfl
  · split
    · rfl
    · cases readConstant ts.tail <;> rfl

/-- Reading an argument list from its first parenthesis ends where that one is closed. -/
theorem afterClosing?_readArguments {ts rest : List Placed} {arguments : List (String × Constant)}
    (ho : isSymbolAt '(' ts = true) (h : readArguments ts = .ok (arguments, rest)) :
    afterClosing? 0 ts.tail = some rest := by
  rw [readArguments_open ho] at h
  obtain ⟨⟨as, mid⟩, hinner, h⟩ := bind_eq_ok.1 h
  obtain ⟨end', hend, h⟩ := map_eq_ok.1 h
  obtain ⟨rfl, rfl⟩ := Prod.mk.inj h
  obtain ⟨hc, rfl⟩ := expectSymbol_eq_ok hend
  have hsame : SameDepth ts.tail mid := by
    unfold readBetween at hinner
    split at hinner
    · exact sameDepth_readNamedArguments hinner
    · split at hinner
      · obtain ⟨rfl, rfl⟩ := Prod.mk.inj (Except.ok.inj hinner)
        exact sameDepth_refl _
      · obtain ⟨⟨value, ts'⟩, hv, hinner⟩ := bind_eq_ok.1 hinner
        obtain ⟨rfl, rfl⟩ := Prod.mk.inj (Except.ok.inj hinner)
        exact sameDepth_readConstant hv
  rw [hsame, afterClosing?_last hc]

end UpdaterBootstrap
