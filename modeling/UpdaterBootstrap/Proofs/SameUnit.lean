import UpdaterBootstrap.Proofs.ClosedReading
import UpdaterBootstrap.Proofs.LineEnd
import UpdaterBootstrap.Proofs.UnitText

/-!
# Unit texts that declare the same class

Two unit texts with the same annotations and the same class, with other blanks between the keyword
and the name, are the same unit but for the line of the class, or have the same fault
(`parseUnit_same`).
-/

namespace UpdaterBootstrap

inductive SameUnit : Except UnitError ParsedUnit → Except UnitError ParsedUnit → Prop
  | fault (e : UnitError) : SameUnit (.error e) (.error e)
  | unit (u : ParsedUnit) (line : Nat) : SameUnit (.ok u) (.ok { u with classLine := line })

theorem sameUnit_refl (x : Except UnitError ParsedUnit) : SameUnit x x := by
  cases x with
  | error e => exact .fault e
  | ok u => exact .unit u u.classLine

/-! ## Texts after a capture -/

/-- Texts that begin with the same three characters and have as many tokens, from the next
annotation or the declaration on. -/
structure FollowAlike (next next' : List Char) : Prop where
  start : next.take 3 = next'.take 3
  tokens : ∀ line, (∃ e, tokensFrom line 0 next = .error e ∧ tokensFrom line 0 next' = .error e) ∨
    ∃ ts ts', tokensFrom line 0 next = .ok ts ∧ tokensFrom line 0 next' = .ok ts' ∧ ts.length = ts'.length ∧
      StartsPart ts ∧ StartsPart ts'

theorem FollowAlike.of_ok {next next' : List Char} (h : FollowAlike next next') {line : Nat}
    {ts ts' : List Placed}
    (hts : tokensFrom line 0 next = .ok ts) (hts' : tokensFrom line 0 next' = .ok ts') :
    ts.length = ts'.length ∧ StartsPart ts ∧ StartsPart ts' := by
  rcases h.tokens line with ⟨e, he, _⟩ | ⟨us, us', hus, hus', hparts⟩
  · rw [hts] at he
    cases he
  · rw [hts] at hus
    rw [hts'] at hus'
    cases hus
    cases hus'
    exact hparts

theorem FollowAlike.startsPart {next next' : List Char} (h : FollowAlike next next') (line : Nat)
    (ts : List Placed) (hts : tokensFrom line 0 next = .ok ts) : StartsPart ts := by
  rcases h.tokens line with ⟨e, he, _⟩ | ⟨us, us', hus, _, _, hpart, _⟩
  · rw [hts] at he
    cases he
  · rw [hts] at hus
    cases hus
    exact hpart

theorem FollowAlike.symm {next next' : List Char} (h : FollowAlike next next') : FollowAlike next' next := by
  refine ⟨h.start.symm, fun line => ?_⟩
  rcases h.tokens line with ⟨e, he, he'⟩ | ⟨us, us', hus, hus', hlength, hpart, hpart'⟩
  · exact .inl ⟨e, he', he⟩
  · exact .inr ⟨us', us, hus', hus, hlength.symm, hpart', hpart⟩

theorem passed_joinDots {ws : List (List Char)} (h : ∀ w ∈ ws, isWord w = true) : Passed (joinDots ws) := by
  apply passed_unpaired
  intro c hc
  have hpoint : isInert '.' = true ∧ '.' ≠ '(' ∧ '.' ≠ ')' := by decide
  have hpart {c : Char} (hc : isIdentPart c = true) : IsUnpaired c :=
    ⟨isInert_of_isIdentPart hc, ne_of_class hc (by decide), ne_of_class hc (by decide)⟩
  induction ws with
  | nil => cases hc
  | cons w ws ih =>
    obtain ⟨hw, hws⟩ := List.forall_mem_cons.1 h
    cases ws with
    | nil => exact hpart (isIdentPart_of_isWord hw c hc)
    | cons v ws =>
      rcases List.mem_append.1 hc with hc | hc
      · exact hpart (isIdentPart_of_isWord hw c hc)
      · rcases List.mem_cons.1 hc with rfl | hc
        · exact hpoint
        · exact ih hws hc

theorem Capture.passed (c : Capture) : Passed c.text := by
  have hname : Passed c.name := passed_joinDots c.words
  have harguments : Passed c.arguments := by
    rcases c.closed with h | h
    · rw [h]
      exact passed_nil
    · exact h.passed
  exact (hname.append harguments).at

theorem FollowAlike.capture {next next' : List Char} (h : FollowAlike next next') (c : Capture) :
    FollowAlike (c.text ++ '\n' :: next) (c.text ++ '\n' :: next') := by
  refine ⟨take_before h.start (by decide) c.text, fun line => ?_⟩
  rcases tokensFrom_before h.start (c.passed.feedIsCode next) line with herror | ⟨ts, hts, hts'⟩
  · exact .inl herror
  · rcases h.tokens (line + lineFeeds c.text + 1) with ⟨e, he, he'⟩ | ⟨us, us', hus, hus', hlength, _⟩
    · rw [hts, hts', he, he']
      exact .inl ⟨e, rfl, rfl⟩
    · have first {next : List Char} {all : List Placed}
        (hall : tokensFrom line 0 (c.text ++ '\n' :: next) = .ok all) :
          StartsPart all := by
        obtain ⟨us, rfl, _⟩ := (reads_symbol line '@' _ (by decide) (by decide)).tokens hall
        exact .inl rfl
      rw [hus] at hts
      rw [hus'] at hts'
      refine .inr ⟨_, _, hts, hts', ?_, first hts, first hts'⟩
      rw [List.length_append, List.length_append, hlength]

theorem FollowAlike.captures {body body' : List Char} (h : FollowAlike body body') (cs : List Capture) :
    FollowAlike (captureText cs ++ body) (captureText cs ++ body') := by
  induction cs with
  | nil => exact h
  | cons c cs ih =>
    rw [captureText_cons, captureText_cons]
    exact ih.capture c

/-! ## Annotations -/

section
variable {next next' : List Char} (h : FollowAlike next next') {c : Capture} {line : Nat}
  {us us' : List Placed}
include h

/-- Before the texts that follow, the parser gives up with the same fault, or reads the same and
goes on there. -/
theorem readArguments_same (hus : tokensFrom line 0 (c.arguments ++ '\n' :: next) = .ok us)
    (hus' : tokensFrom line 0 (c.arguments ++ '\n' :: next') = .ok us') :
    (∃ e, readArguments us = .error e ∧ readArguments us' = .error e) ∨
      ∃ arguments line' ts ts', readArguments us = .ok (arguments, ts) ∧
        readArguments us' = .ok (arguments, ts') ∧
        tokensFrom line' 0 next = .ok ts ∧ tokensFrom line' 0 next' = .ok ts' := by
  rcases c.closed with harguments | ⟨gap, inner, harguments, hgap, hinner⟩
  · rw [harguments] at hus hus'
    change tokensFrom (line + 1) 0 next = .ok us at hus
    change tokensFrom (line + 1) 0 next' = .ok us' at hus'
    obtain ⟨-, hpart, hpart'⟩ := h.of_ok hus hus'
    have nothing {us : List Placed} (hpart : StartsPart us) : readArguments us = .ok ([], us) := by
      rw [readArguments, hpart.isSymbolAt (by decide)]
      rfl
    exact .inr ⟨[], line + 1, us, us', nothing hpart, nothing hpart', hus, hus'⟩
  · rw [harguments, List.append_assoc, List.cons_append] at hus hus'
    -- blanks and parenthesis are read alike, whatever comes after the list
    have hblank : ∀ d ∈ gap, isBlank d = true := by
      intro d hd
      rcases hgap d hd with rfl | rfl <;> decide
    have opening (next : List Char) :=
      (reads_blanks line _ hblank).append
        (reads_symbol (line + lineFeeds gap) '(' (inner ++ '\n' :: next) (by decide) (by decide))
    obtain ⟨ws, rfl, hws⟩ := (opening next).tokens (by rwa [List.append_assoc])
    obtain ⟨ws', rfl, hws'⟩ := (opening next').tokens (by rwa [List.append_assoc])
    obtain ⟨ms, hfst, hms, -⟩ := closing?_passed (hinner ('\n' :: next))
    -- up to the line feed after the captured list the tokens are the same
    rcases tokensFrom_before h.start (feedIsCode_of_marks hfst hms) (line + lineFeeds gap) with
      ⟨e, he, -⟩ | ⟨as, has, has'⟩
    · rw [hws] at he
      cases he
    rw [has] at hws
    rw [has'] at hws'
    obtain ⟨ts, hts, rfl⟩ := map_eq_ok.1 hws
    obtain ⟨ts', hts', rfl⟩ := map_eq_ok.1 hws'
    rw [hts] at has
    obtain ⟨post, vs, hpost, hclosed, hvs⟩ := closing?_tokens (hinner ('\n' :: next)) has
    obtain rfl := List.append_cancel_left hpost
    obtain rfl : ts = vs := Except.ok.inj (hts.symm.trans hvs)
    rcases readArguments_upToClosing (h.of_ok hts hts').1 (upToClosing_of_afterClosing? hclosed ts')
        (t := ⟨.symbol '(', line + lineFeeds gap⟩) rfl with herror | ⟨arguments, hread, hread'⟩
    · exact .inl herror
    · exact .inr ⟨arguments, _, ts, ts', hread, hread', hts, hts'⟩

omit h in
/-- What is read of an annotation once its name has been. -/
theorem readAnnotationTerm_dotted {name : List Char} {more : List (List Char)} (hends : EndsName us) :
    readAnnotationTerm (⟨.symbol '@', line⟩ :: (dottedTokens line (name :: more) ++ us)) =
      (readArguments us).map fun p => (⟨.ofList (joinDots (name :: more)), p.1, line⟩, p.2) := by
  have hat (ts : List Placed) : expectSymbol '@' (⟨.symbol '@', line⟩ :: ts) = .ok ts := rfl
  unfold readAnnotationTerm
  rw [hat, ok_bind, readDottedName_dotted line (readSegments_ends hends), ok_bind]
  dsimp only
  cases readArguments us <;> rfl

theorem readAnnotationTerm_same (hus : tokensFrom line 0 (c.text ++ '\n' :: next) = .ok us)
    (hus' : tokensFrom line 0 (c.text ++ '\n' :: next') = .ok us') :
    (∃ e, readAnnotationTerm us = .error e ∧ readAnnotationTerm us' = .error e) ∨
      ∃ a line' ts ts', readAnnotationTerm us = .ok (a, ts) ∧ readAnnotationTerm us' = .ok (a, ts') ∧
        tokensFrom line' 0 next = .ok ts ∧ tokensFrom line' 0 next' = .ok ts' := by
  have head (next : List Char) :
      Reads line ('@' :: c.name) (⟨.symbol '@', line⟩ :: dottedTokens line (c.first :: c.more))
      line (c.arguments ++ '\n' :: next) :=
    (reads_symbol line '@' _ (by decide) (by decide)).append (reads_dotted line c.words (c.endsWord next))
  rw [Capture.text, List.cons_append, List.append_assoc] at hus hus'
  obtain ⟨vs, rfl, hvs⟩ := (head next).tokens hus
  obtain ⟨vs', rfl, hvs'⟩ := (head next').tokens hus'
  have hends {next : List Char} {vs : List Placed}
    (hnext : ∀ line ts, tokensFrom line 0 next = .ok ts → StartsPart ts)
      (hvs : tokensFrom line 0 (c.arguments ++ '\n' :: next) = .ok vs) : EndsName vs :=
    (readArguments_capture c hnext hvs).1
  rw [List.cons_append, List.cons_append, readAnnotationTerm_dotted (hends h.startsPart hvs),
    readAnnotationTerm_dotted (hends h.symm.startsPart hvs')]
  rcases readArguments_same h hvs hvs' with ⟨e, he, he'⟩ | ⟨arguments, line', ts, ts', hread, hread', hts⟩
  · rw [he, he']
    exact .inl ⟨e, rfl, rfl⟩
  · rw [hread, hread']
    exact .inr ⟨_, line', ts, ts', rfl, rfl, hts⟩

end

/-! ## Units -/

def ClassHeader.declaration (h : ClassHeader) : List Char :=
  (h.text ++ " \x7b\x7d").toList

section
variable {header header' : ClassHeader} (h : header.IsDeclaration) (h' : header'.IsDeclaration)
include h h'

theorem followAlike_declaration : FollowAlike header.declaration header'.declaration := by
  have start (header : ClassHeader) : header.declaration.take 3 = "cla".toList := by
    simp [ClassHeader.declaration, ClassHeader.text]
  refine ⟨(start header).trans (start header').symm, fun line => ?_⟩
  obtain ⟨line₁, h₁⟩ := tokensFrom_declaration h line
  obtain ⟨line₂, h₂⟩ := tokensFrom_declaration h' line
  exact .inr ⟨_, _, h₁, h₂, rfl, .inr (.inl rfl), .inr (.inl rfl)⟩

variable (hname : header.name = header'.name) (imports : List Import) {line : Nat} {ts ts' : List Placed}
include hname

theorem readDeclaration_same (hts : tokensFrom line 0 header.declaration = .ok ts)
    (hts' : tokensFrom line 0 header'.declaration = .ok ts') (annotations : List AnnotationTerm) :
    SameUnit (readDeclaration imports annotations ts) (readDeclaration imports annotations ts') := by
  obtain ⟨line₁, h₁⟩ := tokensFrom_declaration h line
  obtain ⟨line₂, h₂⟩ := tokensFrom_declaration h' line
  obtain rfl := Except.ok.inj (h₁.symm.trans hts)
  obtain rfl := Except.ok.inj (h₂.symm.trans hts')
  rw [← hname]
  exact .unit ⟨none, imports, annotations, header.name, line₁⟩ line₂

theorem readAnnotations_same (cs : List Capture) (fuel : Nat) (done : List AnnotationTerm)
    (hts : tokensFrom line 0 (captureText cs ++ header.declaration) = .ok ts)
    (hts' : tokensFrom line 0 (captureText cs ++ header'.declaration) = .ok ts') :
    SameUnit (readAnnotations fuel done ts >>= fun p => readDeclaration imports p.1 p.2)
      (readAnnotations fuel done ts' >>= fun p => readDeclaration imports p.1 p.2) := by
  have hfollow := followAlike_declaration h h'
  induction cs generalizing line fuel done ts ts' with
  | nil =>
    have starts {header : ClassHeader} {ts : List Placed} (h : header.IsDeclaration)
        (hts : tokensFrom line 0 header.declaration = .ok ts) : StartsClass ts := by
      obtain ⟨_, hline⟩ := tokensFrom_declaration h line
      rw [← Except.ok.inj (hline.symm.trans hts)]
      exact .inl rfl
    rw [readAnnotations_end (starts h hts), readAnnotations_end (starts h' hts')]
    exact readDeclaration_same h h' hname imports hts hts' done
  | cons c cs ih =>
    rw [captureText_cons] at hts hts'
    have hterm := readAnnotationTerm_same (hfollow.captures cs) hts hts'
    obtain ⟨us, rfl, _⟩ := (reads_symbol line '@' _ (by decide) (by decide)).tokens hts
    obtain ⟨us', rfl, _⟩ := (reads_symbol line '@' _ (by decide) (by decide)).tokens hts'
    cases fuel with
    | zero => exact .fault ⟨line, .unexpected .classDeclaration (.symbol '@')⟩
    | succ fuel =>
      have hat (us : List Placed) : isSymbolAt '@' ([⟨.symbol '@', line⟩] ++ us) = true := rfl
      rw [readAnnotations, readAnnotations, if_pos (hat us), if_pos (hat us')]
      rcases hterm with ⟨e, he, he'⟩ | ⟨a, line', vs, vs', hread, hread', hvs, hvs'⟩
      · rw [he, he']
        exact .fault e
      · rw [hread, hread', ok_bind, ok_bind]
        exact ih fuel (done ++ [a]) hvs hvs'

end

theorem bareDeclaration_of_some {stripped : String} {header : ClassHeader}
    (h : findClassHeader stripped = some header) :
    (bareDeclaration stripped).toList = header.declaration := by
  rw [bareDeclaration, h]
  rfl

/-- The unit of a script does not depend on the line count, where the stripped texts declare the
same class. -/
theorem parseUnit_same {source : String} {k k' : Bool}
    (h : (findClassHeader (stripAnnotations source k)).map ClassHeader.name =
      (findClassHeader (stripAnnotations source k')).map ClassHeader.name) :
    SameUnit (parseUnit (extract source k).unit.render) (parseUnit (extract source k').unit.render) := by
  obtain ⟨cs, htext, -⟩ := toList_render source
  rw [parseUnit_imports (htext k), parseUnit_imports (htext k')]
  cases hheader : findClassHeader (stripAnnotations source k) with
  | none =>
    rw [hheader] at h
    have hheader' : findClassHeader (stripAnnotations source k') = none := Option.map_eq_none_iff.1 h.symm
    rw [bareDeclaration, bareDeclaration, hheader, hheader']
    exact sameUnit_refl _
  | some header =>
    rw [hheader] at h
    obtain ⟨header', hheader', hname⟩ := Option.map_eq_some_iff.1 h.symm
    have hdeclared := isDeclaration_of_classHeaderFrom hheader
    have hdeclared' := isDeclaration_of_classHeaderFrom hheader'
    rw [bareDeclaration_of_some hheader, bareDeclaration_of_some hheader']
    rcases ((followAlike_declaration hdeclared hdeclared').captures cs).tokens 3 with
      ⟨e, he, he'⟩ | ⟨us, us', hus, hus', hlength, hpart, hpart'⟩
    · rw [he, he']
      exact .fault e
    · rw [hus, hus', ok_bind, ok_bind, readUnit_imports hpart, readUnit_imports hpart', hlength]
      exact readAnnotations_same hdeclared hdeclared' hname.symm bothImports cs _ [] hus hus'

end UpdaterBootstrap
