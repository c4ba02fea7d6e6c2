import UpdaterBootstrap.Proofs.Outcome
import UpdaterBootstrap.Unit.Parser

/-!
# Constant expressions

The reader of constants folds while it reads. Here an expression is a tree, `Spells` says which
tokens spell it, and what is read off the tokens is the value of a tree they spell
(`readConstant_spells`).
-/

namespace UpdaterBootstrap

inductive Expression
  | text (s : String)
  | integer (n : Int64)
  | decimal (x : Float)
  | boolean (b : Bool)
  | reference (name : String)
  | list (items : List Expression)
  | negation (operand : Expression)
  | operation (op : Operator) (left right : Expression)

mutual

def Expression.value : Expression → Except ArithmeticFault Constant
  | .text s => .ok (.text s)
  | .integer n => .ok (.integer n)
  | .decimal x => .ok (.decimal x)
  | .boolean b => .ok (.boolean b)
  | .reference name => .ok (.reference name)
  | .list items => do
    let cs ← Expression.values items
    return .list cs
  | .negation operand => do
    let c ← operand.value
    negate c
  | .operation op left right => do
    let a ← left.value
    let b ← right.value
    fold op a b

def Expression.values : List Expression → Except ArithmeticFault (List Constant)
  | [] => .ok []
  | e :: es => do
    let c ← e.value
    let cs ← Expression.values es
    return c :: cs

end

/-! ## How expressions are spelled -/

theorem sumOperator?_symbol {ts : List Placed} {op : Operator} (h : sumOperator? ts = some op) :
    isSymbolAt '+' ts = true ∨ isSymbolAt '-' ts = true := by
  unfold sumOperator? at h
  split at h
  · exact .inl ‹_›
  · split at h
    · exact .inr ‹_›
    · cases h

theorem productOperator?_symbol {ts : List Placed} {op : Operator} (h : productOperator? ts = some op) :
    isSymbolAt '*' ts = true ∨ isSymbolAt '/' ts = true := by
  unfold productOperator? at h
  split at h
  · exact .inl ‹_›
  · split at h
    · exact .inr ‹_›
    · cases h

/-- The rules of the grammar; the items of a list run up to its closing symbol. -/
inductive Rule
  | sum
  | product
  | signed
  | primary
  | items (close : Char)

/-- The tokens from the first list to the second spell the expressions by the rule. -/
inductive Spells : Rule → List Expression → List Placed → List Placed → Prop
  | product {e : Expression} {ts rest : List Placed} (h : Spells .product [e] ts rest) :
      Spells .sum [e] ts rest
  | sum {op : Operator} {a b : Expression} {ts mid rest : List Placed} (ha : Spells .sum [a] ts mid)
      (hop : sumOperator? mid = some op) (hb : Spells .product [b] mid.tail rest) :
      Spells .sum [.operation op a b] ts rest
  | signed {e : Expression} {ts rest : List Placed} (h : Spells .signed [e] ts rest) :
      Spells .product [e] ts rest
  | multiple {op : Operator} {a b : Expression} {ts mid rest : List Placed}
      (ha : Spells .product [a] ts mid) (hop : productOperator? mid = some op)
      (hb : Spells .signed [b] mid.tail rest) : Spells .product [.operation op a b] ts rest
  | minus {e : Expression} {ts rest : List Placed} (hs : isSymbolAt '-' ts = true)
      (h : Spells .signed [e] ts.tail rest) : Spells .signed [.negation e] ts rest
  | plus {e : Expression} {ts rest : List Placed} (hs : isSymbolAt '+' ts = true)
      (h : Spells .primary [e] ts.tail rest) : Spells .signed [e] ts rest
  | primary {e : Expression} {ts rest : List Placed} (h : Spells .primary [e] ts rest) :
      Spells .signed [e] ts rest
  | text {s : String} {ts : List Placed} (h : (current ts).token = .text s) :
      Spells .primary [.text s] ts ts.tail
  | integer {n : Int64} {ts : List Placed} (h : (current ts).token = .integer n) :
      Spells .primary [.integer n] ts ts.tail
  | decimal {x : Float} {ts : List Placed} (h : (current ts).token = .decimal x) :
      Spells .primary [.decimal x] ts ts.tail
  | true {ts : List Placed} (h : (current ts).token = .word "true") :
      Spells .primary [.boolean Bool.true] ts ts.tail
  | false {ts : List Placed} (h : (current ts).token = .word "false") :
      Spells .primary [.boolean Bool.false] ts ts.tail
  | reference {name first : String} {ts rest : List Placed} (h : (current ts).token = .word first)
      (ht : first ≠ "true") (hf : first ≠ "false") (hn : readDottedName ts = .ok (name, rest)) :
      Spells .primary [.reference name] ts rest
  | brackets {items : List Expression} {ts rest : List Placed} (hs : isSymbolAt '[' ts = true)
      (h : Spells (.items ']') items ts.tail rest) : Spells .primary [.list items] ts rest
  | braces {items : List Expression} {ts rest : List Placed} (hs : isSymbolAt '\x7b' ts = true)
      (h : Spells (.items '\x7d') items ts.tail rest) : Spells .primary [.list items] ts rest
  | parentheses {e : Expression} {ts rest : List Placed} (hs : isSymbolAt '(' ts = true)
      (h : Spells .sum [e] ts.tail rest) (hc : isSymbolAt ')' rest = true) :
      Spells .primary [e] ts rest.tail
  | close {c : Char} {ts : List Placed} (hc : isSymbolAt c ts = true) : Spells (.items c) [] ts ts.tail
  | last {c : Char} {e : Expression} {ts rest : List Placed} (h : Spells .sum [e] ts rest)
      (hc : isSymbolAt c rest = true) : Spells (.items c) [e] ts rest.tail
  | item {c : Char} {e : Expression} {es : List Expression} {ts mid rest : List Placed}
      (h : Spells .sum [e] ts mid) (hc : isSymbolAt ',' mid = true)
      (hs : Spells (.items c) es mid.tail rest) : Spells (.items c) (e :: es) ts rest

theorem atLine_eq_ok {α : Type} {line : Nat} {r : Except ArithmeticFault α} {a : α} :
    atLine line r = .ok a ↔ r = .ok a :=
  mapError_eq_ok

theorem expectSymbol_eq_ok {c : Char} {ts rest : List Placed} (h : expectSymbol c ts = .ok rest) :
    isSymbolAt c ts = true ∧ rest = ts.tail := by
  unfold expectSymbol at h
  split at h
  · rename_i hc
    exact ⟨hc, (Except.ok.inj h).symm⟩
  · cases h

theorem value_operation {op : Operator} {a b : Expression} {x y z : Constant} (ha : a.value = .ok x)
    (hb : b.value = .ok y) (h : fold op x y = .ok z) : (Expression.operation op a b).value = .ok z := by
  simp only [Expression.value, ha, hb]
  exact h

structure ReadsSpelled (fuel : Nat) : Prop where
  sum : ∀ {ts rest : List Placed} {c : Constant}, readSum fuel ts = .ok (c, rest) →
    ∃ e, Spells .sum [e] ts rest ∧ e.value = .ok c
  sumRest : ∀ {a : Expression} {x c : Constant} {start ts rest : List Placed}, Spells .sum [a] start ts →
    a.value = .ok x → readSumRest fuel x ts = .ok (c, rest) → ∃ e, Spells .sum [e] start rest ∧
      e.value = .ok c
  product : ∀ {ts rest : List Placed} {c : Constant}, readProduct fuel ts = .ok (c, rest) →
    ∃ e, Spells .product [e] ts rest ∧ e.value = .ok c
  productRest : ∀ {a : Expression} {x c : Constant} {start ts rest : List Placed},
    Spells .product [a] start ts → a.value = .ok x → readProductRest fuel x ts = .ok (c, rest) →
    ∃ e, Spells .product [e] start rest ∧ e.value = .ok c
  signed : ∀ {ts rest : List Placed} {c : Constant}, readSigned fuel ts = .ok (c, rest) →
    ∃ e, Spells .signed [e] ts rest ∧ e.value = .ok c
  primary : ∀ {ts rest : List Placed} {c : Constant}, readPrimary fuel ts = .ok (c, rest) →
    ∃ e, Spells .primary [e] ts rest ∧ e.value = .ok c
  items : ∀ {close : Char} {done : List Constant} {ts rest : List Placed} {c : Constant},
    readItems fuel close done ts = .ok (c, rest) → ∃ es cs, Spells (.items close) es ts rest ∧
      Expression.values es = .ok cs ∧ c = .list (done ++ cs)

section
variable {fuel : Nat} (ih : ReadsSpelled fuel)
include ih

theorem readSum_spells {ts rest : List Placed} {c : Constant} (h : readSum (fuel + 1) ts = .ok (c, rest)) :
    ∃ e, Spells .sum [e] ts rest ∧ e.value = .ok c := by
  rw [readSum] at h
  obtain ⟨⟨x, mid⟩, hx, h⟩ := bind_eq_ok.1 h
  obtain ⟨a, ha, hax⟩ := ih.product hx
  exact ih.sumRest (.product ha) hax h

theorem readSumRest_spells {a : Expression} {x c : Constant} {start ts rest : List Placed}
    (ha : Spells .sum [a] start ts) (hx : a.value = .ok x) (h : readSumRest (fuel + 1) x ts = .ok (c, rest)) :
    ∃ e, Spells .sum [e] start rest ∧ e.value = .ok c := by
  rw [readSumRest] at h
  split at h
  · obtain ⟨rfl, rfl⟩ := Prod.mk.inj (Except.ok.inj h)
    exact ⟨a, ha, hx⟩
  · rename_i op hop
    obtain ⟨⟨y, mid⟩, hy, h⟩ := bind_eq_ok.1 h
    obtain ⟨z, hz, h⟩ := bind_eq_ok.1 h
    obtain ⟨b, hb, hby⟩ := ih.product hy
    exact ih.sumRest (.sum ha hop hb) (value_operation hx hby (atLine_eq_ok.1 hz)) h

theorem readProduct_spells {ts rest : List Placed} {c : Constant}
    (h : readProduct (fuel + 1) ts = .ok (c, rest)) : ∃ e, Spells .product [e] ts rest ∧ e.value = .ok c := by
  rw [readProduct] at h
  obtain ⟨⟨x, mid⟩, hx, h⟩ := bind_eq_ok.1 h
  obtain ⟨a, ha, hax⟩ := ih.signed hx
  exact ih.productRest (.signed ha) hax h

theorem readProductRest_spells {a : Expression} {x c : Constant} {start ts rest : List Placed}
    (ha : Spells .product [a] start ts) (hx : a.value = .ok x)
    (h : readProductRest (fuel + 1) x ts = .ok (c, rest)) :
    ∃ e, Spells .product [e] start rest ∧ e.value = .ok c := by
  rw [readProductRest] at h
  split at h
  · obtain ⟨rfl, rfl⟩ := Prod.mk.inj (Except.ok.inj h)
    exact ⟨a, ha, hx⟩
  · rename_i op hop
    obtain ⟨⟨y, mid⟩, hy, h⟩ := bind_eq_ok.1 h
    obtain ⟨z, hz, h⟩ := bind_eq_ok.1 h
    obtain ⟨b, hb, hby⟩ := ih.signed hy
    exact ih.productRest (.multiple ha hop hb) (value_operation hx hby (atLine_eq_ok.1 hz)) h

theorem readSigned_spells {ts rest : List Placed} {c : Constant}
    (h : readSigned (fuel + 1) ts = .ok (c, rest)) : ∃ e, Spells .signed [e] ts rest ∧ e.value = .ok c := by
  rw [readSigned] at h
  split at h
  · rename_i hs
    obtain ⟨⟨x, mid⟩, hx, h⟩ := bind_eq_ok.1 h
    obtain ⟨z, hz, h⟩ := bind_eq_ok.1 h
    obtain ⟨rfl, rfl⟩ := Prod.mk.inj (pure_eq_ok.1 h)
    obtain ⟨e, he, hex⟩ := ih.signed hx
    refine ⟨.negation e, .minus hs he, ?_⟩
    simp only [Expression.value, hex]
    exact atLine_eq_ok.1 hz
  · obtain ⟨e, he, hec⟩ := ih.primary h
    split at he
    · rename_i hs
      exact ⟨e, .plus hs he, hec⟩
    · exact ⟨e, .primary he, hec⟩

theorem readPrimary_spells {ts rest : List Placed} {c : Constant}
    (h : readPrimary (fuel + 1) ts = .ok (c, rest)) : ∃ e, Spells .primary [e] ts rest ∧ e.value = .ok c := by
  have atSymbol {d : Char} (hd : (current ts).token = .symbol d) : isSymbolAt d ts = true := by
    simp [isSymbolAt, hd]
  have asList {close : Char} {t : List Placed} (hl : readItems fuel close [] t = .ok (c, rest)) :
      ∃ es, Spells (.items close) es t rest ∧ (Expression.list es).value = .ok c := by
    obtain ⟨es, cs, hes, hcs, rfl⟩ := ih.items hl
    refine ⟨es, hes, ?_⟩
    simp only [Expression.value, hcs]
    rfl
  -- one case for each kind of first token
  rw [readPrimary] at h
  split at h
  · rename_i s hs
    obtain ⟨rfl, rfl⟩ := Prod.mk.inj (Except.ok.inj h)
    exact ⟨.text s, .text hs, rfl⟩
  · rename_i n hn
    obtain ⟨rfl, rfl⟩ := Prod.mk.inj (Except.ok.inj h)
    exact ⟨.integer n, .integer hn, rfl⟩
  · rename_i x hx
    obtain ⟨rfl, rfl⟩ := Prod.mk.inj (Except.ok.inj h)
    exact ⟨.decimal x, .decimal hx, rfl⟩
  · rename_i first hw
    split at h
    · obtain ⟨rfl, rfl⟩ := Prod.mk.inj (Except.ok.inj h)
      exact ⟨.boolean true, .true hw, rfl⟩
    · obtain ⟨rfl, rfl⟩ := Prod.mk.inj (Except.ok.inj h)
      exact ⟨.boolean false, .false hw, rfl⟩
    · rename_i ht hf
      obtain ⟨⟨name, mid⟩, hname, h⟩ := bind_eq_ok.1 h
      obtain ⟨rfl, rfl⟩ := Prod.mk.inj (pure_eq_ok.1 h)
      exact ⟨.reference name, .reference hw ht hf hname, rfl⟩
  · rename_i opening hs
    split at h
    · obtain ⟨es, hes, hc⟩ := asList h
      exact ⟨.list es, .brackets (atSymbol hs) hes, hc⟩
    · obtain ⟨es, hes, hc⟩ := asList h
      exact ⟨.list es, .braces (atSymbol hs) hes, hc⟩
    · obtain ⟨⟨x, mid⟩, hx, h⟩ := bind_eq_ok.1 h
      obtain ⟨end', hend, h⟩ := bind_eq_ok.1 h
      obtain ⟨rfl, rfl⟩ := Prod.mk.inj (pure_eq_ok.1 h)
      obtain ⟨hc, rfl⟩ := expectSymbol_eq_ok hend
      obtain ⟨e, he, hex⟩ := ih.sum hx
      exact ⟨e, .parentheses (atSymbol hs) he hc, hex⟩
    · cases h
  · cases h

theorem readItems_spells {close : Char} {done : List Constant} {ts rest : List Placed} {c : Constant}
    (h : readItems (fuel + 1) close done ts = .ok (c, rest)) : ∃ es cs, Spells (.items close) es ts rest ∧
      Expression.values es = .ok cs ∧ c = .list (done ++ cs) := by
  have values_cons {e : Expression} {es : List Expression} {x : Constant} {cs : List Constant}
      (he : e.value = .ok x) (hes : Expression.values es = .ok cs) :
      Expression.values (e :: es) = .ok (x :: cs) := by
    simp only [Expression.values, he, hes]
    rfl
  rw [readItems] at h
  split at h
  · rename_i hc
    obtain ⟨rfl, rfl⟩ := Prod.mk.inj (Except.ok.inj h)
    exact ⟨[], [], .close hc, rfl, by rw [List.append_nil]⟩
  · obtain ⟨⟨x, mid⟩, hx, h⟩ := bind_eq_ok.1 h
    obtain ⟨e, he, hex⟩ := ih.sum hx
    dsimp only at h
    split at h
    · rename_i hcomma
      obtain ⟨es, cs, hes, hcs, rfl⟩ := ih.items h
      exact ⟨e :: es, x :: cs, .item he hcomma hes, values_cons hex hcs, by rw [List.append_assoc]; rfl⟩
    · obtain ⟨end', hend, h⟩ := bind_eq_ok.1 h
      obtain ⟨rfl, rfl⟩ := Prod.mk.inj (pure_eq_ok.1 h)
      obtain ⟨hc, rfl⟩ := expectSymbol_eq_ok hend
      exact ⟨[e], [x], .last he hc, values_cons hex rfl, rfl⟩

end

theorem readsSpelled (fuel : Nat) : ReadsSpelled fuel := by
  induction fuel with
  | zero =>
    constructor
    all_goals
      intros
      rename_i h
      cases h
  | succ fuel ih =>
    exact {
      sum := readSum_spells ih
      sumRest := readSumRest_spells ih
      product := readProduct_spells ih
      productRest := readProductRest_spells ih
      signed := readSigned_spells ih
      primary := readPrimary_spells ih
      items := readItems_spells ih }

theorem readConstant_spells {ts rest : List Placed} {c : Constant} (h : readConstant ts = .ok (c, rest)) :
    ∃ e, Spells .sum [e] ts rest ∧ e.value = .ok c :=
  (readsSpelled _).sum h

end UpdaterBootstrap
