import UpdaterBootstrap.Proofs.Nesting
import UpdaterBootstrap.Proofs.PartWords

/-!
# The tokens of a unit

A unit that can be read ends in its declaration: the word `class`, the name, a pair of braces and
semicolons (`readUnit_tokens`). What comes before it is taken in pieces none of which ends in a
number or a point, so the keyword is joined to nothing.
-/

namespace UpdaterBootstrap

/-- `rest` stands in `ts` after tokens of which the last, if there are any, joins nothing. -/
def TakenApart (ts rest : List Placed) : Prop :=
  ∃ taken, ts = taken ++ rest ∧ ∀ t ∈ taken.getLast?, t.token.joins = false

theorem takenApart_refl (ts : List Placed) : TakenApart ts ts :=
  ⟨[], rfl, nofun⟩

theorem TakenApart.trans {ts mid rest : List Placed} (h : TakenApart ts mid) (h' : TakenApart mid rest) :
    TakenApart ts rest := by
  obtain ⟨a, rfl, ha⟩ := h
  obtain ⟨b, rfl, hb⟩ := h'
  refine ⟨a ++ b, (List.append_assoc _ _ _).symm, fun t ht => ?_⟩
  rw [List.getLast?_append] at ht
  cases hlast : b.getLast? with
  | none =>
    rw [hlast, Option.none_or] at ht
    exact ha t ht
  | some u =>
    rw [hlast, Option.some_or] at ht
    exact hb t (hlast ▸ ht)

theorem takenApart_tail {ts : List Placed} (h : (current ts).token.joins = false) :
    TakenApart ts ts.tail := by
  cases ts with
  | nil => exact takenApart_refl []
  | cons t ts =>
    refine ⟨[t], rfl, fun u hu => ?_⟩
    rw [← Option.some.inj hu]
    exact h

theorem takenApart_symbol {c : Char} {ts : List Placed} (h : isSymbolAt c ts = true) (hc : c ≠ '.') :
    TakenApart ts ts.tail := by
  refine takenApart_tail ?_
  rw [isSymbolAt_eq.1 h]
  exact beq_false_of_ne hc

theorem takenApart_expectSymbol {c : Char} {ts rest : List Placed} (h : expectSymbol c ts = .ok rest)
    (hc : c ≠ '.') :
    TakenApart ts rest := by
  obtain ⟨hsymbol, rfl⟩ := expectSymbol_eq_ok h
  exact takenApart_symbol hsymbol hc

theorem isWordAt_eq {name : String} {ts : List Placed} :
    isWordAt name ts = true ↔ (current ts).token = .word name := by
  simp [isWordAt]

theorem takenApart_word {name : String} {ts : List Placed} (h : isWordAt name ts = true) :
    TakenApart ts ts.tail := by
  refine takenApart_tail ?_
  rw [isWordAt_eq.1 h]
  rfl

theorem readWord_eq_ok {ts rest : List Placed} {name : String} (h : readWord ts = .ok (name, rest)) :
    (current ts).token = .word name ∧ rest = ts.tail := by
  unfold readWord at h
  split at h
  · rename_i hword
    obtain ⟨rfl, rfl⟩ := Prod.mk.inj (Except.ok.inj h)
    exact ⟨hword, rfl⟩
  · cases h

theorem takenApart_readWord {ts rest : List Placed} {name : String} (h : readWord ts = .ok (name, rest)) :
    TakenApart ts rest := by
  obtain ⟨hword, rfl⟩ := readWord_eq_ok h
  refine takenApart_tail ?_
  rw [hword]
  rfl

theorem exists_semicolons (ts : List Placed) :
    ∃ semicolons, ts = semicolons ++ skipSemicolons ts ∧ ∀ t ∈ semicolons, t.token = .symbol ';' := by
  refine ⟨ts.takeWhile (·.token == .symbol ';'), List.takeWhile_append_dropWhile.symm, fun t ht => ?_⟩
  exact beq_iff_eq.1 (List.all_eq_true.1 List.all_takeWhile t ht)

theorem takenApart_skipSemicolons (ts : List Placed) : TakenApart ts (skipSemicolons ts) := by
  obtain ⟨semicolons, hts, hall⟩ := exists_semicolons ts
  refine ⟨semicolons, hts, fun t ht => ?_⟩
  rw [hall t (List.mem_of_getLast? ht)]
  rfl

/-! ## Names -/

theorem takenApart_readSegments (ts : List Placed) : TakenApart ts (readSegments ts).2 := by
  fun_induction readSegments ts with
  | case1 line name line' ts more rest heq ih =>
    rw [heq] at ih
    exact .trans ⟨[⟨.symbol '.', line⟩, ⟨.word name, line'⟩], rfl,
      fun t ht => by rw [← Option.some.inj ht]; rfl⟩ ih
  | case2 ts => exact takenApart_refl ts

theorem takenApart_readDottedName {ts rest : List Placed} {name : String}
    (h : readDottedName ts = .ok (name, rest)) :
    TakenApart ts rest := by
  obtain ⟨⟨first, mid⟩, hw, h⟩ := bind_eq_ok.1 h
  obtain ⟨rfl, rfl⟩ := Prod.mk.inj (pure_eq_ok.1 h)
  exact (takenApart_readWord hw).trans (takenApart_readSegments mid)

/-! ## Annotations -/

theorem exists_closing {depth : Nat} {ts rest : List Placed} (h : afterClosing? depth ts = some rest) :
    ∃ inner t, ts = inner ++ t :: rest ∧ t.token = .symbol ')' := by
  induction ts generalizing depth with
  | nil => cases h
  | cons t ts ih =>
    have through {depth' : Nat} (h : afterClosing? depth' ts = some rest) :
        ∃ inner u, t :: ts = inner ++ u :: rest ∧ u.token = .symbol ')' := by
      obtain ⟨inner, u, rfl, hu⟩ := ih h
      exact ⟨t :: inner, u, rfl, hu⟩
    unfold afterClosing? at h
    split at h
    · exact through h
    split at h
    · rename_i hclose
      cases depth with
      | zero => exact ⟨[], t, by rw [← Option.some.inj h]; rfl, beq_iff_eq.1 hclose⟩
      | succ depth => exact through h
    · exact through h

theorem takenApart_readArguments {ts rest : List Placed} {arguments : List (String × Constant)}
    (h : readArguments ts = .ok (arguments, rest)) : TakenApart ts rest := by
  by_cases hopen : isSymbolAt '(' ts = true
  · obtain ⟨inner, t, htail, ht⟩ := exists_closing (afterClosing?_readArguments hopen h)
    refine (takenApart_symbol hopen (by decide)).trans ⟨inner ++ [t], ?_, fun u hu => ?_⟩
    · rw [htail, List.append_assoc]
      rfl
    · rw [List.getLast?_concat] at hu
      rw [← Option.some.inj hu, ht]
      rfl
  · rw [readArguments, if_pos (by simpa using hopen)] at h
    obtain ⟨rfl, rfl⟩ := Prod.mk.inj (Except.ok.inj h)
    exact takenApart_refl ts

theorem takenApart_readAnnotationTerm {ts rest : List Placed} {a : AnnotationTerm}
    (h : readAnnotationTerm ts = .ok (a, rest)) : TakenApart ts rest := by
  obtain ⟨ts₁, hat, h⟩ := bind_eq_ok.1 h
  obtain ⟨⟨name, ts₂⟩, hname, h⟩ := bind_eq_ok.1 h
  obtain ⟨⟨arguments, ts₃⟩, harguments, h⟩ := bind_eq_ok.1 h
  obtain ⟨rfl, rfl⟩ := Prod.mk.inj (pure_eq_ok.1 h)
  exact (takenApart_expectSymbol hat (by decide)).trans
    ((takenApart_readDottedName hname).trans (takenApart_readArguments harguments))

theorem takenApart_modifier {ts : List Placed} (h : isModifierAt ts = true) : TakenApart ts ts.tail := by
  unfold isModifierAt at h
  split at h
  · rename_i hword
    exact takenApart_word (isWordAt_eq.2 hword)
  · cases h

theorem takenApart_readAnnotations {fuel : Nat} {as result : List AnnotationTerm} {ts rest : List Placed}
    (h : readAnnotations fuel as ts = .ok (result, rest)) : TakenApart ts rest := by
  induction fuel generalizing as ts with
  | zero =>
    obtain ⟨-, rfl⟩ := Prod.mk.inj (Except.ok.inj h)
    exact takenApart_refl ts
  | succ fuel ih =>
    rw [readAnnotations] at h
    split at h
    · obtain ⟨⟨a, mid⟩, ha, h⟩ := bind_eq_ok.1 h
      exact (takenApart_readAnnotationTerm ha).trans (ih h)
    split at h
    · rename_i hmodifier
      exact (takenApart_modifier hmodifier).trans (ih h)
    · obtain ⟨-, rfl⟩ := Prod.mk.inj (Except.ok.inj h)
      exact takenApart_refl ts

/-! ## Package and imports -/

theorem takenApart_readPackage {ts rest : List Placed} {package : Option String}
    (h : readPackage ts = .ok (package, rest)) : TakenApart ts rest := by
  unfold readPackage at h
  split at h
  · rename_i hword
    obtain ⟨⟨name, mid⟩, hname, h⟩ := bind_eq_ok.1 h
    obtain ⟨-, rfl⟩ := Prod.mk.inj (pure_eq_ok.1 h)
    exact (takenApart_word hword).trans
      ((takenApart_readDottedName hname).trans (takenApart_skipSemicolons mid))
  · obtain ⟨-, rfl⟩ := Prod.mk.inj (Except.ok.inj h)
    exact takenApart_refl ts

theorem takenApart_wildcard {ts rest : List Placed} (hpoint : isSymbolAt '.' ts = true)
    (hstar : expectSymbol '*' ts.tail = .ok rest) : TakenApart ts rest := by
  obtain ⟨hsymbol, rfl⟩ := expectSymbol_eq_ok hstar
  match ts, hsymbol with
  | t :: u :: ts, hsymbol =>
    refine ⟨[t, u], rfl, fun v hv => ?_⟩
    have hu : u.token = .symbol '*' := isSymbolAt_eq.1 hsymbol
    obtain rfl : u = v := Option.some.inj hv
    rw [hu]
    rfl

theorem takenApart_readImport {ts rest : List Placed} {i : Import} (h : readImport ts = .ok (i, rest)) :
    TakenApart ts rest := by
  have renamed {path : String} {ts : List Placed}
      (h : (if isWordAt "as" ts = true then do
          let x ← readWord ts.tail
          pure (⟨path, some x.1⟩, skipSemicolons x.2)
        else pure (⟨path, none⟩, skipSemicolons ts) : Except UnitError (Parsed Import)) = .ok (i, rest)) :
      TakenApart ts rest := by
    split at h
    · rename_i has
      obtain ⟨⟨name, mid⟩, hname, h⟩ := bind_eq_ok.1 h
      obtain ⟨-, rfl⟩ := Prod.mk.inj (pure_eq_ok.1 h)
      exact (takenApart_word has).trans ((takenApart_readWord hname).trans (takenApart_skipSemicolons mid))
    · obtain ⟨-, rfl⟩ := Prod.mk.inj (pure_eq_ok.1 h)
      exact takenApart_skipSemicolons ts
  unfold readImport at h
  obtain ⟨⟨name, ts₁⟩, hname, h⟩ := bind_eq_ok.1 h
  have hstart : TakenApart ts ts₁ := by
    refine .trans ?_ (takenApart_readDottedName hname)
    split
    · rename_i hstatic
      exact takenApart_word hstatic
    · exact takenApart_refl ts
  simp only [ok_bind] at h
  split at h
  · rename_i hpoint
    obtain ⟨ts₂, hstar, h⟩ := bind_eq_ok.1 h
    exact hstart.trans ((takenApart_wildcard hpoint hstar).trans (renamed h))
  · exact hstart.trans (renamed h)

theorem takenApart_readImports {fuel : Nat} {is result : List Import} {ts rest : List Placed}
    (h : readImports fuel is ts = .ok (result, rest)) : TakenApart ts rest := by
  induction fuel generalizing is ts with
  | zero =>
    obtain ⟨-, rfl⟩ := Prod.mk.inj (Except.ok.inj h)
    exact takenApart_refl ts
  | succ fuel ih =>
    rw [readImports] at h
    split at h
    · rename_i hword
      obtain ⟨⟨i, mid⟩, hi, h⟩ := bind_eq_ok.1 h
      exact (takenApart_word hword).trans ((takenApart_readImport hi).trans (ih h))
    · obtain ⟨-, rfl⟩ := Prod.mk.inj (Except.ok.inj h)
      exact takenApart_refl ts

/-! ## The declaration -/

theorem exists_cons_of_current {ts : List Placed} {t : Token} (h : (current ts).token = t)
    (ht : t ≠ .word "") :
    ∃ p rest, ts = p :: rest ∧ p.token = t := by
  cases ts with
  | nil => exact absurd h.symm ht
  | cons p rest => exact ⟨p, rest, rfl, h⟩

theorem declaration_tokens {ts ts₁ ts₂ ts₃ : List Placed} {className : String}
    (hclass : isWordAt "class" ts = true)
    (hname : readWord ts.tail = .ok (className, ts₁)) (hopen : expectSymbol '\x7b' ts₁ = .ok ts₂)
    (hclose : expectSymbol '\x7d' ts₂ = .ok ts₃) (hfinish : (current (skipSemicolons ts₃)).token = .finish) :
    ∃ keyword name after finish rest, ts = keyword :: name :: (after ++ finish :: rest) ∧
      keyword.token = .word "class" ∧ name.token = .word className ∧ (∀ t ∈ after, t.token.word? = none) ∧
      finish.token = .finish := by
  obtain ⟨hopens, rfl⟩ := expectSymbol_eq_ok hopen
  obtain ⟨hcloses, rfl⟩ := expectSymbol_eq_ok hclose
  obtain ⟨opening, ts₂, rfl, hopening⟩ := exists_cons_of_current (isSymbolAt_eq.1 hopens) (by decide)
  rw [List.tail_cons] at hcloses hfinish
  obtain ⟨closing, ts₃, rfl, hclosing⟩ := exists_cons_of_current (isSymbolAt_eq.1 hcloses) (by decide)
  rw [List.tail_cons] at hfinish
  obtain ⟨keyword, names, rfl, hkeyword⟩ := exists_cons_of_current (isWordAt_eq.1 hclass) (by decide)
  obtain ⟨hword, hnames⟩ := readWord_eq_ok hname
  rw [List.tail_cons] at hword hnames
  obtain ⟨semicolons, hsemicolons, hall⟩ := exists_semicolons ts₃
  obtain ⟨finish, rest, hrest, hfinish⟩ := exists_cons_of_current hfinish (by decide)
  have hnone {t : Placed} {c : Char} (ht : t.token = .symbol c) : t.token.word? = none := by
    rw [ht]
    rfl
  cases names with
  | nil => cases hnames
  | cons name names =>
    obtain rfl : opening :: closing :: ts₃ = names := hnames
    refine ⟨keyword, name, opening :: closing :: semicolons, finish, rest, ?_, hkeyword, hword, ?_, hfinish⟩
    · rw [← hrest, List.cons_append, List.cons_append, ← hsemicolons]
    · exact List.forall_mem_cons.2 ⟨hnone hopening,
        List.forall_mem_cons.2 ⟨hnone hclosing, fun t ht => hnone (hall t ht)⟩⟩

/-- The class of a unit stands at the end of its tokens. -/
theorem readUnit_tokens {ts : List Placed} {u : ParsedUnit} (h : readUnit ts = .ok u) :
    ∃ before keyword name after finish rest, ts = before ++ keyword :: name :: (after ++ finish :: rest) ∧
      (∀ t ∈ before.getLast?, t.token.joins = false) ∧ keyword.token = .word "class" ∧
      name.token = .word u.className ∧ (∀ t ∈ after, t.token.word? = none) ∧ finish.token = .finish := by
  unfold readUnit at h
  obtain ⟨⟨package, ts₁⟩, hpackage, h⟩ := bind_eq_ok.1 h
  obtain ⟨⟨imports, ts₂⟩, himports, h⟩ := bind_eq_ok.1 h
  obtain ⟨⟨annotations, ts₃⟩, hannotations, h⟩ := bind_eq_ok.1 h
  obtain ⟨before, hbefore, hapart⟩ :=
    (takenApart_skipSemicolons ts).trans ((takenApart_readPackage hpackage).trans
    ((takenApart_readImports himports).trans (takenApart_readAnnotations hannotations)))
  dsimp only at h
  split at h
  · cases h
  rename_i hclass
  rw [Bool.not_eq_true', Bool.not_eq_false] at hclass
  obtain ⟨⟨className, ts₄⟩, hname, h⟩ := bind_eq_ok.1 h
  obtain ⟨ts₅, hopen, h⟩ := bind_eq_ok.1 h
  obtain ⟨ts₆, hclose, h⟩ := bind_eq_ok.1 h
  dsimp only at h
  split at h
  · rename_i hfinish
    obtain rfl := pure_eq_ok.1 h
    obtain ⟨keyword, name, after, finish, rest, hts, hdeclaration⟩ :=
      declaration_tokens hclass hname hopen hclose (beq_iff_eq.1 hfinish)
    exact ⟨before, keyword, name, after, finish, rest, hts ▸ hbefore, hapart, hdeclaration⟩
  · cases h

end UpdaterBootstrap
