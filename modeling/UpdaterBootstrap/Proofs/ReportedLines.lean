import UpdaterBootstrap.Proofs.TokenLines
import UpdaterBootstrap.Proofs.UnitTokens

/-!
# Lines that are reported

A reader of units takes tokens off the front and stops before the end of input, so that there is
always a token left to report the line of (`OnLines` and `HasEnd`, one lemma for each reader). With
the lines of the tokens, every line that is reported is one of the text (`reported_lines`).
-/

namespace UpdaterBootstrap

structure HasEnd (first last : Nat) (ts : List Placed) : Prop where
  finish : ∃ before line, ts = before ++ [⟨.finish, line⟩]
  onLine : ∀ t ∈ ts, first ≤ t.line ∧ t.line ≤ last

abbrev ReadsOn {α : Type} (first last : Nat) (r : Except UnitError (Parsed α)) : Prop :=
  OnLines first last (fun p => HasEnd first last p.2) r

section
variable {first last : Nat} {ts : List Placed} (h : HasEnd first last ts)
include h

theorem HasEnd.current : first ≤ (current ts).line ∧ (current ts).line ≤ last := by
  obtain ⟨before, line, rfl⟩ := h.finish
  cases before with
  | nil => exact h.onLine _ List.mem_cons_self
  | cons t before => exact h.onLine t List.mem_cons_self

theorem HasEnd.tail (hne : (UpdaterBootstrap.current ts).token ≠ .finish) : HasEnd first last ts.tail := by
  obtain ⟨before, line, rfl⟩ := h.finish
  cases before with
  | nil => exact absurd rfl hne
  | cons t before => exact ⟨⟨before, line, rfl⟩, fun u hu => h.onLine u (List.mem_of_mem_tail hu)⟩

omit h in
theorem HasEnd.rest {taken : List Placed} (h : HasEnd first last (taken ++ ts))
    (htaken : ∀ t ∈ taken, t.token ≠ .finish) :
    HasEnd first last ts := by
  induction taken with
  | nil => exact h
  | cons t taken ih =>
    exact ih (h.tail (htaken t List.mem_cons_self)) fun u hu => htaken u (List.mem_cons_of_mem t hu)

theorem HasEnd.tail_symbol {c : Char} (hc : isSymbolAt c ts = true) : HasEnd first last ts.tail :=
  h.tail (by simp [isSymbolAt_eq.1 hc])

theorem HasEnd.tail_word {name : String} (hname : isWordAt name ts = true) : HasEnd first last ts.tail :=
  h.tail (by simp [isWordAt_eq.1 hname])

theorem onLines_unexpected {α : Type} {P : α → Prop} (expected : Expected) :
    OnLines first last P (unexpected expected ts) :=
  h.current

theorem onLines_atLine {α : Type} (r : Except ArithmeticFault α) :
    OnLines first last Anything (atLine (UpdaterBootstrap.current ts).line r) := by
  cases r with
  | error fault => exact h.current
  | ok a => trivial

theorem onLines_expectSymbol (c : Char) : OnLines first last (HasEnd first last) (expectSymbol c ts) := by
  unfold expectSymbol
  split
  · rename_i hc
    exact h.tail_symbol hc
  · exact onLines_unexpected h _

theorem readsOn_readWord : ReadsOn first last (readWord ts) := by
  unfold readWord
  split
  · rename_i hword
    exact h.tail (by simp [hword])
  · exact onLines_unexpected h _

theorem hasEnd_skipSemicolons : HasEnd first last (skipSemicolons ts) := by
  obtain ⟨semicolons, hts, hall⟩ := exists_semicolons ts
  rw [hts] at h
  exact h.rest fun t ht => by simp [hall t ht]

theorem hasEnd_readSegments : HasEnd first last (readSegments ts).2 := by
  fun_induction readSegments ts with
  | case1 line name line' ts more rest heq ih =>
    rw [heq] at ih
    exact ih ((h.tail (by simp [current])).tail (by simp [current]))
  | case2 ts => exact h

theorem readsOn_readDottedName : ReadsOn first last (readDottedName ts) :=
  (readsOn_readWord h).bind fun _ hrest => hasEnd_readSegments hrest

end

/-! ## Constants -/

structure ConstantsReadOn (first last fuel : Nat) : Prop where
  sum : ∀ {ts : List Placed}, HasEnd first last ts → ReadsOn first last (readSum fuel ts)
  sumRest : ∀ {ts : List Placed} (x : Constant), HasEnd first last ts →
    ReadsOn first last (readSumRest fuel x ts)
  product : ∀ {ts : List Placed}, HasEnd first last ts → ReadsOn first last (readProduct fuel ts)
  productRest : ∀ {ts : List Placed} (x : Constant), HasEnd first last ts →
    ReadsOn first last (readProductRest fuel x ts)
  signed : ∀ {ts : List Placed}, HasEnd first last ts → ReadsOn first last (readSigned fuel ts)
  primary : ∀ {ts : List Placed}, HasEnd first last ts → ReadsOn first last (readPrimary fuel ts)
  items : ∀ {ts : List Placed} (close : Char) (done : List Constant), HasEnd first last ts →
    ReadsOn first last (readItems fuel close done ts)

theorem sumOperator?_tail {first last : Nat} {ts : List Placed} {op : Operator} (h : HasEnd first last ts)
    (hop : sumOperator? ts = some op) : HasEnd first last ts.tail :=
  (sumOperator?_symbol hop).elim h.tail_symbol h.tail_symbol

theorem productOperator?_tail {first last : Nat} {ts : List Placed} {op : Operator} (h : HasEnd first last ts)
    (hop : productOperator? ts = some op) : HasEnd first last ts.tail :=
  (productOperator?_symbol hop).elim h.tail_symbol h.tail_symbol

section
variable {first last fuel : Nat} (ih : ConstantsReadOn first last fuel) {ts : List Placed}
  (h : HasEnd first last ts)
include ih h

theorem readsOn_readSum : ReadsOn first last (readSum (fuel + 1) ts) := by
  rw [readSum]
  exact (ih.product h).bind fun _ hrest => ih.sumRest _ hrest

theorem readsOn_readSumRest (x : Constant) : ReadsOn first last (readSumRest (fuel + 1) x ts) := by
  rw [readSumRest]
  split
  · exact h
  · rename_i op hop
    refine (ih.product (sumOperator?_tail h hop)).bind fun _ hrest => ?_
    exact (onLines_atLine h _).bind fun _ _ => ih.sumRest _ hrest

theorem readsOn_readProduct : ReadsOn first last (readProduct (fuel + 1) ts) := by
  rw [readProduct]
  exact (ih.signed h).bind fun _ hrest => ih.productRest _ hrest

theorem readsOn_readProductRest (x : Constant) : ReadsOn first last (readProductRest (fuel + 1) x ts) := by
  rw [readProductRest]
  split
  · exact h
  · rename_i op hop
    refine (ih.signed (productOperator?_tail h hop)).bind fun _ hrest => ?_
    exact (onLines_atLine h _).bind fun _ _ => ih.productRest _ hrest

theorem readsOn_readSigned : ReadsOn first last (readSigned (fuel + 1) ts) := by
  rw [readSigned]
  split
  · rename_i hminus
    refine (ih.signed (h.tail_symbol hminus)).bind fun _ hrest => ?_
    exact (onLines_atLine h _).bind fun _ _ => hrest
  · split
    · rename_i hplus
      exact ih.primary (h.tail_symbol hplus)
    · exact ih.primary h

theorem readsOn_readPrimary : ReadsOn first last (readPrimary (fuel + 1) ts) := by
  have hsymbol {c : Char} (hc : (current ts).token = .symbol c) : HasEnd first last ts.tail :=
    h.tail (by simp [hc])
  rw [readPrimary]
  split
  · rename_i htoken
    exact h.tail (by simp [htoken])
  · rename_i htoken
    exact h.tail (by simp [htoken])
  · rename_i htoken
    exact h.tail (by simp [htoken])
  · rename_i htoken
    have hword : HasEnd first last ts.tail := h.tail (by simp [htoken])
    split
    · exact hword
    · exact hword
    · exact (readsOn_readDottedName h).bind fun _ hrest => hrest
  · rename_i htoken
    split
    · exact ih.items _ _ (hsymbol htoken)
    · exact ih.items _ _ (hsymbol htoken)
    · refine (ih.sum (hsymbol htoken)).bind fun _ hrest => ?_
      exact (onLines_expectSymbol hrest _).bind fun _ hrest => hrest
    · exact onLines_unexpected h _
  · exact onLines_unexpected h _

theorem readsOn_readItems (close : Char) (done : List Constant) :
    ReadsOn first last (readItems (fuel + 1) close done ts) := by
  rw [readItems]
  split
  · rename_i hclose
    exact h.tail_symbol hclose
  · refine (ih.sum h).bind fun _ hrest => ?_
    dsimp only
    split
    · rename_i hcomma
      exact ih.items _ _ (hrest.tail_symbol hcomma)
    · exact (onLines_expectSymbol hrest _).bind fun _ hrest => hrest

end

theorem constantsReadOn (first last fuel : Nat) : ConstantsReadOn first last fuel := by
  induction fuel with
  | zero =>
    exact {
      sum := fun h => onLines_unexpected h _
      sumRest := fun _ h => onLines_unexpected h _
      product := fun h => onLines_unexpected h _
      productRest := fun _ h => onLines_unexpected h _
      signed := fun h => onLines_unexpected h _
      primary := fun h => onLines_unexpected h _
      items := fun _ _ h => onLines_unexpected h _ }
  | succ fuel ih =>
    exact {
      sum := readsOn_readSum ih
      sumRest := fun x h => readsOn_readSumRest ih h x
      product := readsOn_readProduct ih
      productRest := fun x h => readsOn_readProductRest ih h x
      signed := readsOn_readSigned ih
      primary := readsOn_readPrimary ih
      items := fun close done h => readsOn_readItems ih h close done }

/-! ## Units -/

theorem readsOn_readNamedArguments {first last fuel : Nat} {arguments : List (String × Constant)}
    {ts : List Placed}
    (h : HasEnd first last ts) : ReadsOn first last (readNamedArguments fuel arguments ts) := by
  induction fuel generalizing arguments ts with
  | zero => exact onLines_unexpected h _
  | succ fuel ih =>
    rw [readNamedArguments]
    refine (readsOn_readWord h).bind fun _ hword => (onLines_expectSymbol hword _).bind fun _ hequals => ?_
    refine ((constantsReadOn first last _).sum hequals).bind fun _ hvalue => ?_
    dsimp only
    split
    · show HasEnd first last (if _ then _ else _)
      split
      · rename_i hcomma
        exact hvalue.tail_symbol hcomma
      · exact hvalue
    · rename_i hmore
      simp only [Bool.or_eq_true, Bool.not_eq_true', not_or, Bool.not_eq_false] at hmore
      exact ih (hvalue.tail_symbol hmore.1)

section
variable {first last : Nat} {ts : List Placed} (h : HasEnd first last ts)
include h

theorem readsOn_readBetween : ReadsOn first last (readBetween ts) := by
  unfold readBetween
  split
  · exact readsOn_readNamedArguments h
  split
  · exact h
  · exact ((constantsReadOn first last _).sum h).bind fun _ hrest => hrest

theorem readsOn_readArguments : ReadsOn first last (readArguments ts) := by
  by_cases hopen : isSymbolAt '(' ts = true
  · rw [readArguments_open hopen]
    refine (readsOn_readBetween (h.tail_symbol hopen)).bind fun _ hbetween => ?_
    exact (onLines_expectSymbol hbetween _).map fun _ hrest => hrest
  · rw [readArguments, if_pos (by simpa using hopen)]
    exact h

theorem readsOn_readAnnotationTerm : ReadsOn first last (readAnnotationTerm ts) := by
  unfold readAnnotationTerm
  refine (onLines_expectSymbol h _).bind fun _ hat => (readsOn_readDottedName hat).bind fun _ hname => ?_
  exact (readsOn_readArguments hname).bind fun _ hrest => hrest

theorem readsOn_readPackage : ReadsOn first last (readPackage ts) := by
  unfold readPackage
  split
  · rename_i hpackage
    exact (readsOn_readDottedName (h.tail_word hpackage)).bind fun _ hrest => hasEnd_skipSemicolons hrest
  · exact h

theorem readsOn_readImport : ReadsOn first last (readImport ts) := by
  have hstatic : HasEnd first last (if isWordAt "static" ts then ts.tail else ts) := by
    split
    · rename_i hword
      exact h.tail_word hword
    · exact h
  have renamed (path : String) {ts : List Placed} (h : HasEnd first last ts) :
      ReadsOn first last (if isWordAt "as" ts = true then do
          let x ← readWord ts.tail
          pure (⟨path, some x.1⟩, skipSemicolons x.2)
        else pure (⟨path, none⟩, skipSemicolons ts) : Except UnitError (Parsed Import)) := by
    split
    · rename_i has
      exact (readsOn_readWord (h.tail_word has)).bind fun _ hrest => hasEnd_skipSemicolons hrest
    · exact hasEnd_skipSemicolons h
  unfold readImport
  refine (readsOn_readDottedName hstatic).bind fun _ hname => ?_
  simp only [ok_bind]
  split
  · rename_i hpoint
    exact (onLines_expectSymbol (hname.tail_symbol hpoint) _).bind fun _ hstar => renamed _ hstar
  · exact renamed _ hname

end

theorem readsOn_readImports {first last fuel : Nat} {is : List Import} {ts : List Placed}
    (h : HasEnd first last ts) :
    ReadsOn first last (readImports fuel is ts) := by
  induction fuel generalizing is ts with
  | zero => exact h
  | succ fuel ih =>
    rw [readImports]
    split
    · rename_i hword
      exact (readsOn_readImport (h.tail_word hword)).bind fun _ hrest => ih hrest
    · exact h

theorem readsOn_readAnnotations {first last fuel : Nat} {as : List AnnotationTerm} {ts : List Placed}
    (h : HasEnd first last ts) : ReadsOn first last (readAnnotations fuel as ts) := by
  induction fuel generalizing as ts with
  | zero => exact h
  | succ fuel ih =>
    rw [readAnnotations]
    split
    · exact (readsOn_readAnnotationTerm h).bind fun _ hrest => ih hrest
    split
    · rename_i hmodifier
      refine ih (h.tail ?_)
      unfold isModifierAt at hmodifier
      split at hmodifier
      · rename_i hword
        simp [hword]
      · cases hmodifier
    · exact h

/-- A unit that cannot be read is reported on a line of its tokens. -/
theorem onLines_readUnit {first last : Nat} {ts : List Placed} (h : HasEnd first last ts) :
    OnLines first last Anything (readUnit ts) := by
  unfold readUnit
  refine (readsOn_readPackage (hasEnd_skipSemicolons h)).bind fun _ hpackage => ?_
  refine (readsOn_readImports hpackage).bind fun _ himports => ?_
  refine (readsOn_readAnnotations himports).bind fun _ hannotations => ?_
  dsimp only
  split
  · exact onLines_unexpected hannotations _
  · rename_i hclass
    rw [Bool.not_eq_true', Bool.not_eq_false] at hclass
    refine (readsOn_readWord (hannotations.tail_word hclass)).bind fun _ hname => ?_
    refine (onLines_expectSymbol hname _).bind fun _ hopen =>
      (onLines_expectSymbol hopen _).bind fun _ hclose => ?_
    split
    · trivial
    · exact onLines_unexpected (hasEnd_skipSemicolons hclose) _

/-! ## What is reported -/

theorem IsDivision.hasEnd {text : String} {ts : List Placed} {ps : List Part} (h : IsDivision text ts ps) :
    HasEnd 1 (1 + lineFeeds text.toList) ts :=
  ⟨⟨_, _, h.tokens⟩, h.onLine⟩

theorem onLines_parseUnit (text : String) :
    OnLines 1 (1 + lineFeeds text.toList) Anything (parseUnit text) := by
  unfold parseUnit
  have htokens := onLines_tokens text
  cases h : tokens text with
  | error e =>
    rw [h] at htokens
    exact htokens
  | ok ts =>
    obtain ⟨ps, -, hdivision⟩ := isDivision_of_tokens h
    exact onLines_readUnit hdivision.hasEnd

/-- The lines of tokens are those of a counter that passes each line feed once. Each token of a text
is on the line after the line feeds before its first character, and whatever keeps a text from being
read as a unit is reported on a line of the text. -/
theorem reported_lines (text : String) :
    countedTokens text = tokens text ∧
    (∀ ts, tokens text = .ok ts → ∃ ps, parts text = .ok ps ∧ IsDivision text ts ps) ∧
    ∀ e, parseUnit text = .error e → 1 ≤ e.line ∧ e.line ≤ 1 + lineFeeds text.toList := by
  refine ⟨countedTokens_eq text, fun ts h => isDivision_of_tokens h, fun e h => ?_⟩
  have := onLines_parseUnit text
  rw [h] at this
  exact this

/-- A line feed at each place where one is passed, and a symbol that is not expected on the last
line. -/
theorem reported_lines_places :
    tokens "a\n/*\n*/'''\n''''\\\n'b" =
      .ok [⟨.word "a", 1⟩, ⟨.text "\n", 3⟩, ⟨.text "", 4⟩, ⟨.word "b", 5⟩, ⟨.finish, 5⟩] ∧
    (∃ ps, parts "a\n/*\n*/'''\n''''\\\n'b" = .ok ps ∧ IsDivision "a\n/*\n*/'''\n''''\\\n'b"
      [⟨.word "a", 1⟩, ⟨.text "\n", 3⟩, ⟨.text "", 4⟩, ⟨.word "b", 5⟩, ⟨.finish, 5⟩] ps) ∧
    ∃ e, parseUnit "class A\n\x7b\n]" = .error e ∧ 1 ≤ e.line ∧
      e.line ≤ 1 + lineFeeds "class A\n\x7b\n]".toList := by
  have htokens : tokens "a\n/*\n*/'''\n''''\\\n'b" =
      .ok [⟨.word "a", 1⟩, ⟨.text "\n", 3⟩, ⟨.text "", 4⟩, ⟨.word "b", 5⟩, ⟨.finish, 5⟩] :=
    eq_ok_of_toOption (by decide +kernel)
  have hfault : parseUnit "class A\n\x7b\n]" =
      .error ⟨3, .unexpected (.symbol '\x7d') (.symbol ']')⟩ := by rfl
  exact ⟨htokens, (reported_lines _).2.1 _ htokens, _, hfault, (reported_lines _).2.2 _ hfault⟩

end UpdaterBootstrap
