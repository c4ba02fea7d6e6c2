import UpdaterBootstrap.Proofs.Nesting

/-!
# Reading what is spelled

Where tokens spell an expression and no operator follows them, the reader of constants goes on with
the value of the expression, or reports the fault in it (`readConstant_of_spells`). The operators of
one rule are read in a loop, so of a chain of them it is shown that the loop goes on with the value
of the chain, on fuel that the tokens left cannot use up.
-/

namespace UpdaterBootstrap

/-! ## Tokens taken -/

theorem readSegments_isSuffix (ts : List Placed) : (readSegments ts).2 <:+ ts := by
  fun_induction readSegments ts with
  | case1 line name line' ts more rest heq ih =>
    rw [heq] at ih
    exact (ih.trans (List.suffix_cons _ _)).trans (List.suffix_cons _ _)
  | case2 ts => exact List.suffix_refl ts

theorem readDottedName_isSuffix {ts rest : List Placed} {name : String}
    (h : readDottedName ts = .ok (name, rest)) : rest <:+ ts.tail := by
  obtain ⟨⟨first, mid⟩, hw, hmore⟩ := bind_eq_ok.1 h
  obtain ⟨rfl, rfl⟩ := Prod.mk.inj (pure_eq_ok.1 hmore)
  unfold readWord at hw
  split at hw
  · obtain ⟨rfl, rfl⟩ := Prod.mk.inj (Except.ok.inj hw)
    exact readSegments_isSuffix _
  · cases hw

/-- Without tokens to follow, the reader would find words in an empty list without end. -/
theorem Spells.length_lt {rule : Rule} {es : List Expression} {ts rest : List Placed}
    (h : Spells rule es ts rest) (hne : 0 < rest.length) : rest.length < ts.length := by
  induction h with
  | product _ ih => exact ih hne
  | signed _ ih => exact ih hne
  | primary _ ih => exact ih hne
  | sum _ _ _ iha ihb =>
    have hb := ihb hne
    rw [List.length_tail] at hb
    have ha := iha (by omega)
    omega
  | multiple _ _ _ iha ihb =>
    have hb := ihb hne
    rw [List.length_tail] at hb
    have ha := iha (by omega)
    omega
  | minus _ _ ih => have := ih hne; simp at this; omega
  | plus _ _ ih => have := ih hne; simp at this; omega
  | text => simp at *; omega
  | integer => simp at *; omega
  | decimal => simp at *; omega
  | true => simp at *; omega
  | false => simp at *; omega
  | reference _ _ _ hn => have := (readDottedName_isSuffix hn).length_le; simp at this; omega
  | brackets _ _ ih => have := ih hne; simp at this; omega
  | braces _ _ ih => have := ih hne; simp at this; omega
  | parentheses _ _ _ ih =>
    rw [List.length_tail] at hne ⊢
    have := ih (by omega)
    rw [List.length_tail] at this
    omega
  | close => simp at *; omega
  | last _ _ ih =>
    rw [List.length_tail] at hne ⊢
    have := ih (by omega)
    omega
  | item _ _ _ ih ihs =>
    have hs := ihs hne
    rw [List.length_tail] at hs
    have := ih (by omega)
    omega

def Rule.IsItems : Rule → Prop
  | .items _ => True
  | _ => False

section
variable {close : Char} (hclose : close = ']' ∨ close = '\x7d')
include hclose

theorem isSymbolAt_other {ts : List Placed} {t : Token} (ht : (current ts).token = t)
    (hne : t ≠ .symbol ']' ∧ t ≠ .symbol '\x7d') : isSymbolAt close ts = false := by
  rcases hclose with rfl | rfl <;> simp [isSymbolAt, ht, hne]

/-- No expression begins with the symbol that ends a list. -/
theorem isSymbolAt_of_spells {rule : Rule} {es : List Expression} {ts rest : List Placed}
    (h : Spells rule es ts rest) (hrule : ¬ rule.IsItems) : isSymbolAt close ts = false := by
  have symbol {c : Char} {us : List Placed} (hs : isSymbolAt c us = true) (hc : c ≠ ']') (hc' : c ≠ '\x7d') :
      isSymbolAt close us = false :=
    isSymbolAt_other hclose (isSymbolAt_eq.1 hs) (by simp [hc, hc'])
  induction h with
  | product _ ih => exact ih id
  | signed _ ih => exact ih id
  | primary _ ih => exact ih id
  | sum _ _ _ iha _ => exact iha id
  | multiple _ _ _ iha _ => exact iha id
  | minus hs _ _ => exact symbol hs (by decide) (by decide)
  | plus hs _ _ => exact symbol hs (by decide) (by decide)
  | text ht => exact isSymbolAt_other hclose ht (by simp)
  | integer ht => exact isSymbolAt_other hclose ht (by simp)
  | decimal ht => exact isSymbolAt_other hclose ht (by simp)
  | true ht => exact isSymbolAt_other hclose ht (by simp)
  | false ht => exact isSymbolAt_other hclose ht (by simp)
  | reference ht => exact isSymbolAt_other hclose ht (by simp)
  | brackets hs _ _ => exact symbol hs (by decide) (by decide)
  | braces hs _ _ => exact symbol hs (by decide) (by decide)
  | parentheses hs _ _ _ => exact symbol hs (by decide) (by decide)
  | close => exact absurd trivial hrule
  | last => exact absurd trivial hrule
  | item => exact absurd trivial hrule

end

theorem isSymbolAt_of_primary {es : List Expression} {ts rest : List Placed}
    (h : Spells .primary es ts rest) {sign : Char}
    (hsign : sign = '-' ∨ sign = '+') : isSymbolAt sign ts = false := by
  rcases hsign with rfl | rfl <;> cases h <;> simp_all [isSymbolAt]

/-! ## Values and faults -/

/-- The result is what comes next with the value, or the fault on some line. -/
def Gives {α β : Type} (value : Except ArithmeticFault α) (next : α → Except UnitError β)
    (result : Except UnitError β) :
    Prop :=
  match value with
  | .ok a => result = next a
  | .error fault => ∃ line, result = .error ⟨line, .arithmetic fault⟩

section
variable {α β γ : Type} {value : Except ArithmeticFault α} {next : α → Except UnitError β}
  {result : Except UnitError β}

theorem Gives.bind (h : Gives value next result) (f : β → Except UnitError γ) :
    Gives value (fun a => next a >>= f) (result >>= f) := by
  cases value with
  | ok a => exact congrArg (· >>= f) h
  | error fault =>
    obtain ⟨line, hline⟩ := h
    exact ⟨line, by rw [hline]; rfl⟩

theorem Gives.trans (h : Gives value next result) {more : α → Except ArithmeticFault γ}
    {next' : γ → Except UnitError β}
    (h' : ∀ a, Gives (more a) next' (next a)) : Gives (value >>= more) next' result := by
  cases value with
  | ok a =>
    have heq : result = next a := h
    rw [heq]
    exact h' a
  | error fault => exact h

theorem Gives.congr (h : Gives value next result) {next' : α → Except UnitError β}
    (heq : ∀ a, next a = next' a) :
    Gives value next' result := by
  rwa [← funext heq]

theorem gives_atLine (line : Nat) (value : Except ArithmeticFault α) :
    Gives value Except.ok (atLine line value) := by
  cases value with
  | ok a => rfl
  | error fault => exact ⟨line, rfl⟩

end

/-- An operation on a left operand that is known: the right one is read, and the rest goes on with
the value. -/
theorem Gives.operation {value : Except ArithmeticFault Constant} {rest : List Placed}
    {result : Except UnitError (Parsed Constant)} (h : Gives value (fun y => .ok (y, rest)) result)
    (op : Operator)
    (x : Constant) (line : Nat) (next : Constant → List Placed → Except UnitError (Parsed Constant)) :
    Gives (value >>= fold op x) (fun c => next c rest) (result >>= fun (right, rest) => do
      let c ← atLine line (fold op x right)
      next c rest) :=
  (h.bind _).trans fun y => (gives_atLine line (fold op x y)).bind fun c => next c rest

/-! ## Fuel for the rules -/

/-- The rule reads the expressions with 6 units of fuel for each token, less those that the rules
above it have used. -/
def Rule.Reads : Rule → List Expression → List Placed → List Placed → Prop
  | .sum, [e], ts, rest =>
    ∀ fuel, 6 * ts.length ≤ 6 * rest.length + fuel + 2 → productOperator? rest = none →
      ∃ more, fuel + rest.length ≤ more + ts.length ∧
        Gives e.value (fun c => readSumRest more c rest) (readSum fuel ts)
  | .product, [e], ts, rest => ∀ fuel, 6 * ts.length ≤ 6 * rest.length + fuel + 3 →
      ∃ more, fuel + rest.length ≤ more + ts.length ∧
        Gives e.value (fun c => readProductRest more c rest) (readProduct fuel ts)
  | .signed, [e], ts, rest => ∀ fuel, 6 * ts.length ≤ 6 * rest.length + fuel + 4 →
      Gives e.value (fun c => .ok (c, rest)) (readSigned fuel ts)
  | .primary, [e], ts, rest => ∀ fuel, 6 * ts.length ≤ 6 * rest.length + fuel + 5 →
      Gives e.value (fun c => .ok (c, rest)) (readPrimary fuel ts)
  | .items close, es, ts, rest => close = ']' ∨ close = '\x7d' → ∀ fuel done,
      6 * ts.length ≤ 6 * rest.length + fuel + 5 →
      Gives (Expression.values es) (fun cs => .ok (.list (done ++ cs), rest)) (readItems fuel close done ts)
  | _, _, _, _ => True

theorem readProductRest_end {fuel : Nat} (hfuel : 0 < fuel) {rest : List Placed}
    (h : productOperator? rest = none)
    (c : Constant) : readProductRest fuel c rest = .ok (c, rest) := by
  obtain ⟨fuel, rfl⟩ := Nat.exists_eq_add_of_le' hfuel
  rw [readProductRest, h]

theorem readSumRest_end {fuel : Nat} (hfuel : 0 < fuel) {rest : List Placed} (h : sumOperator? rest = none)
    (c : Constant) : readSumRest fuel c rest = .ok (c, rest) := by
  obtain ⟨fuel, rfl⟩ := Nat.exists_eq_add_of_le' hfuel
  rw [readSumRest, h]

theorem productOperator?_of_sum {ts : List Placed} {op : Operator} (h : sumOperator? ts = some op) :
    productOperator? ts = none := by
  rcases sumOperator?_symbol h with h | h <;> simp [productOperator?, isSymbolAt, isSymbolAt_eq.1 h]

def EndsSum (ts : List Placed) : Prop :=
  sumOperator? ts = none ∧ productOperator? ts = none

theorem endsSum_of_symbol {c : Char} {ts : List Placed} (h : isSymbolAt c ts = true)
    (hc : c ∉ "+-*/".toList) :
    EndsSum ts := by
  simp at hc
  simp [EndsSum, sumOperator?, productOperator?, isSymbolAt, isSymbolAt_eq.1 h, hc]

section
variable {e a b : Expression} {op : Operator} {ts mid rest : List Placed}

theorem Rule.Reads.end_product (h : Rule.product.Reads [e] ts rest) (hlt : rest.length < ts.length)
    (hend : productOperator? rest = none) {fuel : Nat} (hfuel : 6 * ts.length ≤ 6 * rest.length + fuel + 3) :
    Gives e.value (fun c => .ok (c, rest)) (readProduct fuel ts) := by
  obtain ⟨more, hmore, hgives⟩ := h fuel hfuel
  exact hgives.congr (readProductRest_end (by omega) hend)

theorem Rule.Reads.end_sum (h : Rule.sum.Reads [e] ts rest) (hlt : rest.length < ts.length)
    (hend : EndsSum rest) {fuel : Nat} (hfuel : 6 * ts.length ≤ 6 * rest.length + fuel + 2) :
    Gives e.value (fun c => .ok (c, rest)) (readSum fuel ts) := by
  obtain ⟨more, hmore, hgives⟩ := h fuel hfuel hend.2
  exact hgives.congr (readSumRest_end (by omega) hend.1)

/-! ## The rules -/

theorem Rule.reads_product (h : Rule.product.Reads [e] ts rest) (hlt : rest.length < ts.length) :
    Rule.sum.Reads [e] ts rest := by
  intro fuel hfuel hend
  obtain ⟨fuel, rfl⟩ := Nat.exists_eq_add_of_le' (show 1 ≤ fuel by omega)
  refine ⟨fuel, by omega, ?_⟩
  rw [readSum]
  exact (h.end_product hlt hend (by omega)).bind _

theorem Rule.reads_signed (h : Rule.signed.Reads [e] ts rest) (hlt : rest.length < ts.length) :
    Rule.product.Reads [e] ts rest := by
  intro fuel hfuel
  obtain ⟨fuel, rfl⟩ := Nat.exists_eq_add_of_le' (show 1 ≤ fuel by omega)
  refine ⟨fuel, by omega, ?_⟩
  rw [readProduct]
  exact (h fuel (by omega)).bind _

theorem Rule.reads_sum (ha : Rule.sum.Reads [a] ts mid) (hop : sumOperator? mid = some op)
    (hb : Rule.product.Reads [b] mid.tail rest) (hlt : mid.length < ts.length)
    (hlt' : rest.length < mid.tail.length) :
    Rule.sum.Reads [.operation op a b] ts rest := by
  intro fuel hfuel hend
  rw [List.length_tail] at hlt'
  obtain ⟨more, hmore, hgives⟩ := ha fuel (by omega) (productOperator?_of_sum hop)
  obtain ⟨more, rfl⟩ := Nat.exists_eq_add_of_le' (show 1 ≤ more by omega)
  refine ⟨more, by omega, hgives.trans fun x => ?_⟩
  have hright : Gives b.value (fun y => .ok (y, rest)) (readProduct more mid.tail) := by
    apply hb.end_product _ hend <;> rw [List.length_tail] <;> omega
  rw [readSumRest, hop]
  exact hright.operation op x _ (readSumRest more)

theorem Rule.reads_multiple (ha : Rule.product.Reads [a] ts mid) (hop : productOperator? mid = some op)
    (hb : Rule.signed.Reads [b] mid.tail rest) (hlt : mid.length < ts.length)
    (hlt' : rest.length < mid.tail.length) :
    Rule.product.Reads [.operation op a b] ts rest := by
  intro fuel hfuel
  rw [List.length_tail] at hlt'
  obtain ⟨more, hmore, hgives⟩ := ha fuel (by omega)
  obtain ⟨more, rfl⟩ := Nat.exists_eq_add_of_le' (show 1 ≤ more by omega)
  refine ⟨more, by omega, hgives.trans fun x => ?_⟩
  have hright := hb more (by rw [List.length_tail]; omega)
  rw [readProductRest, hop]
  exact hright.operation op x _ (readProductRest more)

theorem Rule.reads_minus (hs : isSymbolAt '-' ts = true) (h : Rule.signed.Reads [e] ts.tail rest)
    (hlt : rest.length < ts.tail.length) : Rule.signed.Reads [.negation e] ts rest := by
  intro fuel hfuel
  rw [List.length_tail] at hlt
  obtain ⟨fuel, rfl⟩ := Nat.exists_eq_add_of_le' (show 1 ≤ fuel by omega)
  have hoperand := h fuel (by rw [List.length_tail]; omega)
  rw [readSigned, if_pos hs]
  refine (hoperand.bind _).trans fun x => ?_
  exact (gives_atLine _ (negate x)).bind fun c => .ok (c, rest)

theorem Rule.reads_primary (hs : isSymbolAt '-' ts = false)
    (h : Rule.primary.Reads [e] (if isSymbolAt '+' ts then ts.tail else ts) rest)
    (hlt : rest.length < ts.length) :
    Rule.signed.Reads [e] ts rest := by
  intro fuel hfuel
  obtain ⟨fuel, rfl⟩ := Nat.exists_eq_add_of_le' (show 1 ≤ fuel by omega)
  rw [readSigned, hs, if_neg Bool.false_ne_true]
  refine h fuel ?_
  split
  · rw [List.length_tail]
    omega
  · omega

theorem Rule.reads_one {c : Constant} (hv : e.value = .ok c)
    (h : ∀ fuel, readPrimary (fuel + 1) ts = .ok (c, rest))
    (hlt : rest.length < ts.length) : Rule.primary.Reads [e] ts rest := by
  intro fuel hfuel
  obtain ⟨fuel, rfl⟩ := Nat.exists_eq_add_of_le' (show 1 ≤ fuel by omega)
  rw [hv]
  exact h fuel

theorem Rule.reads_reference {first name : String} (hw : (current ts).token = .word first)
    (htrue : first ≠ "true") (hfalse : first ≠ "false") (hname : readDottedName ts = .ok (name, rest))
    (hlt : rest.length < ts.length) :
    Rule.primary.Reads [.reference name] ts rest := by
  apply Rule.reads_one rfl _ hlt
  intro fuel
  rw [readPrimary, hw]
  dsimp only
  split
  · exact absurd rfl htrue
  · exact absurd rfl hfalse
  · rw [hname]
    rfl

theorem Rule.reads_list {items : List Expression} {close : Char} (hclose : close = ']' ∨ close = '\x7d')
    (hopen : ∀ fuel, readPrimary (fuel + 1) ts = readItems fuel close [] ts.tail)
    (h : (Rule.items close).Reads items ts.tail rest) (hlt : rest.length < ts.tail.length) :
    Rule.primary.Reads [.list items] ts rest := by
  intro fuel hfuel
  rw [List.length_tail] at hlt
  obtain ⟨fuel, rfl⟩ := Nat.exists_eq_add_of_le' (show 1 ≤ fuel by omega)
  rw [hopen]
  exact (h hclose fuel [] (by rw [List.length_tail]; omega)).trans fun cs => rfl

theorem Rule.reads_parentheses (ho : isSymbolAt '(' ts = true) (h : Rule.sum.Reads [e] ts.tail rest)
    (hc : isSymbolAt ')' rest = true) (hlt : rest.length < ts.tail.length) :
    Rule.primary.Reads [e] ts rest.tail := by
  intro fuel hfuel
  rw [List.length_tail] at hfuel hlt
  obtain ⟨fuel, rfl⟩ := Nat.exists_eq_add_of_le' (show 1 ≤ fuel by omega)
  have hinner : Gives e.value (fun c => .ok (c, rest)) (readSum fuel ts.tail) := by
    apply h.end_sum _ (endsSum_of_symbol hc (by decide)) <;> rw [List.length_tail] <;> omega
  rw [readPrimary, isSymbolAt_eq.1 ho]
  refine (hinner.bind _).congr fun c => ?_
  rw [ok_bind]
  dsimp only
  rw [expectSymbol, if_pos hc]
  rfl

end

/-! ## Items -/

section
variable {e : Expression} {es : List Expression} {ts mid rest : List Placed} {close : Char}

theorem Rule.reads_close (hc : isSymbolAt close ts = true) (hlt : ts.tail.length < ts.length) :
    (Rule.items close).Reads [] ts ts.tail := by
  intro _ fuel done hfuel
  obtain ⟨fuel, rfl⟩ := Nat.exists_eq_add_of_le' (show 1 ≤ fuel by omega)
  rw [readItems, if_pos hc]
  show Except.ok (Constant.list done, ts.tail) = .ok (.list (done ++ []), ts.tail)
  rw [List.append_nil]

theorem Rule.reads_last (hs : Spells .sum [e] ts rest) (h : Rule.sum.Reads [e] ts rest)
    (hc : isSymbolAt close rest = true)
    (hpos : 0 < rest.length) (hlt : rest.length < ts.length) : (Rule.items close).Reads [e] ts rest.tail := by
  intro hclose fuel done hfuel
  rw [List.length_tail] at hfuel
  obtain ⟨fuel, rfl⟩ := Nat.exists_eq_add_of_le' (show 1 ≤ fuel by omega)
  have hend : EndsSum rest := by
    apply endsSum_of_symbol hc
    rcases hclose with rfl | rfl <;> decide
  have hcomma : isSymbolAt ',' rest = false := by
    rcases hclose with rfl | rfl <;> simp [isSymbolAt, isSymbolAt_eq.1 hc]
  have hitem : Gives e.value (fun c => .ok (c, rest)) (readSum fuel ts) := h.end_sum hlt hend (by omega)
  rw [readItems, isSymbolAt_of_spells hclose hs id, if_neg Bool.false_ne_true]
  refine (hitem.bind _).trans fun c => ?_
  show _ = _
  rw [ok_bind]
  dsimp only
  rw [hcomma, if_neg Bool.false_ne_true, expectSymbol, if_pos hc]
  rfl

theorem Rule.reads_item (hs : Spells .sum [e] ts mid) (h : Rule.sum.Reads [e] ts mid)
    (hc : isSymbolAt ',' mid = true)
    (hmore : (Rule.items close).Reads es mid.tail rest) (hlt : mid.length < ts.length)
    (hlt' : rest.length < mid.tail.length) : (Rule.items close).Reads (e :: es) ts rest := by
  intro hclose fuel done hfuel
  rw [List.length_tail] at hlt'
  obtain ⟨fuel, rfl⟩ := Nat.exists_eq_add_of_le' (show 1 ≤ fuel by omega)
  have hitem : Gives e.value (fun c => .ok (c, mid)) (readSum fuel ts) :=
    h.end_sum hlt (endsSum_of_symbol hc (by decide)) (by omega)
  rw [readItems, isSymbolAt_of_spells hclose hs id, if_neg Bool.false_ne_true]
  refine (hitem.bind _).trans fun c => ?_
  rw [ok_bind]
  dsimp only
  rw [if_pos hc]
  refine (hmore hclose fuel (done ++ [c]) (by rw [List.length_tail]; omega)).trans fun cs => ?_
  show _ = _
  rw [List.append_assoc]
  rfl

end

/-! ## Whatever is spelled -/

theorem Spells.reads {rule : Rule} {es : List Expression} {ts rest : List Placed} (h : Spells rule es ts rest)
    (hne : 0 < rest.length) : rule.Reads es ts rest := by
  have tail {us : List Placed} (hlt : 0 < us.tail.length) : us.tail.length < us.length := by
    rw [List.length_tail] at *
    omega
  have before {us vs : List Placed} (hlt : us.length < vs.tail.length) : 0 < vs.length := by
    rw [List.length_tail] at hlt
    omega
  -- the fuel is counted against the tokens left, so every rule has to take one at least
  induction h with
  | product h ih => exact Rule.reads_product (ih hne) (h.length_lt hne)
  | signed h ih => exact Rule.reads_signed (ih hne) (h.length_lt hne)
  | sum ha hop hb iha ihb =>
    have hlt := hb.length_lt hne
    exact Rule.reads_sum (iha (before hlt)) hop (ihb hne) (ha.length_lt (before hlt)) hlt
  | multiple ha hop hb iha ihb =>
    have hlt := hb.length_lt hne
    exact Rule.reads_multiple (iha (before hlt)) hop (ihb hne) (ha.length_lt (before hlt)) hlt
  | minus hs h ih => exact Rule.reads_minus hs (ih hne) (h.length_lt hne)
  | plus hs h ih =>
    have hlt := h.length_lt hne
    rw [List.length_tail] at hlt
    have hminus := isSymbolAt_eq.1 hs
    refine Rule.reads_primary (by simp [isSymbolAt, hminus]) ?_ (by omega)
    rw [if_pos hs]
    exact ih hne
  | primary h ih =>
    refine Rule.reads_primary (isSymbolAt_of_primary h (.inl rfl)) ?_ (h.length_lt hne)
    rw [isSymbolAt_of_primary h (.inr rfl)]
    exact ih hne
  | text ht => exact Rule.reads_one rfl (fun fuel => by rw [readPrimary, ht]) (tail hne)
  | integer ht => exact Rule.reads_one rfl (fun fuel => by rw [readPrimary, ht]) (tail hne)
  | decimal ht => exact Rule.reads_one rfl (fun fuel => by rw [readPrimary, ht]) (tail hne)
  | true ht => exact Rule.reads_one rfl (fun fuel => by rw [readPrimary, ht]; rfl) (tail hne)
  | false ht => exact Rule.reads_one rfl (fun fuel => by rw [readPrimary, ht]; rfl) (tail hne)
  | reference hw htrue hfalse hn =>
    have hle := (readDottedName_isSuffix hn).length_le
    rw [List.length_tail] at hle
    exact Rule.reads_reference hw htrue hfalse hn (by omega)
  | brackets hs h ih =>
    exact Rule.reads_list (.inl rfl) (fun fuel => by rw [readPrimary, isSymbolAt_eq.1 hs]; rfl) (ih hne)
      (h.length_lt hne)
  | braces hs h ih =>
    exact Rule.reads_list (.inr rfl) (fun fuel => by rw [readPrimary, isSymbolAt_eq.1 hs]; rfl) (ih hne)
      (h.length_lt hne)
  | parentheses hs h hc ih =>
    have hpos := Nat.lt_trans hne (tail hne)
    exact Rule.reads_parentheses hs (ih hpos) hc (h.length_lt hpos)
  | close hc => exact Rule.reads_close hc (tail hne)
  | last h hc ih =>
    have hpos := Nat.lt_trans hne (tail hne)
    exact Rule.reads_last h (ih hpos) hc hpos (h.length_lt hpos)
  | item h hc hs ih ihs =>
    have hlt := hs.length_lt hne
    exact Rule.reads_item h (ih (before hlt)) hc (ihs hne) (h.length_lt (before hlt)) hlt

/-- What is spelled is read as its value, up to the tokens after it, or reported as the fault in it. -/
theorem readConstant_of_spells {e : Expression} {ts rest : List Placed} (h : Spells .sum [e] ts rest)
    (hne : rest ≠ []) (hend : EndsSum rest) : Gives e.value (fun c => .ok (c, rest)) (readConstant ts) := by
  have hpos := List.length_pos_iff.2 hne
  exact (h.reads hpos).end_sum (h.length_lt hpos) hend (by omega)

end UpdaterBootstrap
