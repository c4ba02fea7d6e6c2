import UpdaterBootstrap.Proofs.Evaluation
import UpdaterBootstrap.Proofs.WrittenImport

/-!
# Reading the unit text back

The unit text is put together from imports, captured annotations and a bare declaration. Where it is
a unit, each part is read as what it was: an annotation ends where the scan ended it.
-/

namespace UpdaterBootstrap

/-! ## Names of the kinds -/

namespace AnnotationKind

def packageWords : List (List Char) :=
  ["nl", "openweb", "hippo", "groovy", "annotations"].map String.toList

theorem isDottedName_qualifiedName (k : AnnotationKind) : IsDottedName k.qualifiedName.toList := by
  refine ⟨"nl".toList, packageWords.tail ++ [k.simpleName.toList], ?_, ?_⟩
  · cases k <;> decide +kernel
  · cases k <;> decide +kernel

theorem ofName?_eq_some {name : String} {k : AnnotationKind} (h : ofName? name = some k) :
    name = k.simpleName ∨ name = k.qualifiedName := by
  have := List.find?_some h
  simp only [Bool.or_eq_true, beq_iff_eq] at this
  exact this.imp Eq.symm Eq.symm

theorem isDottedName_of_ofName? {name : String} {k : AnnotationKind} (h : ofName? name = some k) :
    IsDottedName name.toList := by
  rcases ofName?_eq_some h with rfl | rfl
  · refine ⟨k.simpleName.toList, [], rfl, List.forall_mem_singleton.2 ?_⟩
    cases k <;> decide +kernel
  · exact k.isDottedName_qualifiedName

end AnnotationKind

/-! ## Captures -/

structure Capture where
  first : List Char
  more : List (List Char)
  arguments : List Char
  words : ∀ w ∈ first :: more, isWord w = true
  closed : arguments = [] ∨ Enclosed arguments

namespace Capture

def name (c : Capture) : List Char :=
  joinDots (c.first :: c.more)

def text (c : Capture) : List Char :=
  '@' :: (c.name ++ c.arguments)

end Capture

def firstOccurrence? (kind : AnnotationKind) (source : String) : Option Occurrence :=
  (findAnnotations source).find? fun o => AnnotationKind.ofName? o.name == some kind

theorem exists_capture {source : String} {kind : AnnotationKind} {o : Occurrence}
    (h : firstOccurrence? kind source = some o) :
    ∃ c : Capture, c.text = o.text.toList ∧ String.ofList c.name = o.name := by
  obtain ⟨after, hcap⟩ := captured_of_mem_findAnnotations (List.mem_of_find?_eq_some h)
  have hkind : AnnotationKind.ofName? o.name = some kind := by simpa using List.find?_some h
  obtain ⟨w, ws, hname, hwords⟩ := AnnotationKind.isDottedName_of_ofName? hkind
  refine ⟨⟨w, ws, o.arguments.toList, hwords, hcap.enclosed⟩, ?_, ?_⟩
  · simp [Capture.text, Capture.name, Occurrence.text, hname]
  · rw [Capture.name, ← hname, String.ofList_toList]

/-! ## Annotations -/

def StartsClass (ts : List Placed) : Prop :=
  isWordAt "class" ts = true ∨ (current ts).token = .finish

/-- The next annotation begins here, or the declaration. -/
def StartsPart (ts : List Placed) : Prop :=
  isSymbolAt '@' ts = true ∨ StartsClass ts

theorem StartsPart.isSymbolAt {ts : List Placed} (h : StartsPart ts) {c : Char} (hc : c ≠ '@') :
    isSymbolAt c ts = false := by
  rw [StartsPart, isSymbolAt_eq, StartsClass, isWordAt, beq_iff_eq] at h
  rcases h with h | h | h <;> simp [UpdaterBootstrap.isSymbolAt, h, hc.symm]

theorem StartsPart.endsName {ts : List Placed} (h : StartsPart ts) : EndsName ts := by
  have := h.isSymbolAt (c := '.') (by decide)
  simpa [EndsName, UpdaterBootstrap.isSymbolAt] using this

theorem StartsPart.isWordAt {ts : List Placed} (h : StartsPart ts) {name : String} (hn : name ≠ "class") :
    isWordAt name ts = false := by
  rw [StartsPart, isSymbolAt_eq, StartsClass, UpdaterBootstrap.isWordAt, beq_iff_eq] at h
  rcases h with h | h | h <;> simp [UpdaterBootstrap.isWordAt, h, hn.symm]

theorem Capture.endsWord (c : Capture) (cs : List Char) : EndsWord (c.arguments ++ '\n' :: cs) := by
  rcases c.closed with h | ⟨gap, inner, h, hgap, _⟩
  · rw [h]
    exact endsWord_cons (by decide) _
  · rw [h]
    cases gap with
    | nil => exact endsWord_cons (by decide) _
    | cons d gap =>
      refine endsWord_cons ?_ _
      rcases hgap d (by simp) with rfl | rfl <;> decide

/-- What is read of the argument list after a captured name ends where the capture ends. -/
theorem readArguments_capture (c : Capture) {line : Nat} {next : List Char} {us : List Placed}
    (hnext : ∀ line ts, tokensFrom line 0 next = .ok ts → StartsPart ts)
    (hus : tokensFrom line 0 (c.arguments ++ '\n' :: next) = .ok us) :
    EndsName us ∧ ∀ as rest, readArguments us = .ok (as, rest) →
      ∃ line', tokensFrom line' 0 next = .ok rest := by
  rcases c.closed with harguments | ⟨gap, inner, harguments, hgap, hinner⟩
  · rw [harguments] at hus
    have hpart := hnext _ _ hus
    refine ⟨hpart.endsName, fun as rest h => ⟨line + 1, ?_⟩⟩
    rw [readArguments, hpart.isSymbolAt (by decide)] at h
    obtain ⟨rfl, rfl⟩ := Prod.mk.inj (Except.ok.inj h)
    exact hus
  · rw [harguments, List.append_assoc] at hus
    have hgap' : ∀ d ∈ gap, isBlank d = true := by
      intro d hd
      rcases hgap d hd with rfl | rfl <;> decide
    have hopen := (reads_blanks line _ hgap').append
      (reads_symbol (line + lineFeeds gap) '(' (inner ++ '\n' :: next) (by decide) (by decide))
    obtain ⟨ws, rfl, hws⟩ := hopen.tokens (by rwa [List.append_assoc])
    obtain ⟨post, ts', hpost, hclosed, hts'⟩ := closing?_tokens (hinner ('\n' :: next)) hws
    obtain rfl := List.append_cancel_left hpost
    refine ⟨by simp [EndsName, current], fun as rest h => ⟨line + lineFeeds gap + lineFeeds inner + 1, ?_⟩⟩
    -- the parser stops at the same parenthesis as the scan
    obtain rfl := Option.some.inj ((afterClosing?_readArguments rfl h).symm.trans hclosed)
    exact hts'

theorem readAnnotationTerm_capture {c : Capture} {line : Nat} {next : List Char} {ts rest : List Placed}
    {a : AnnotationTerm} (hnext : ∀ line ts, tokensFrom line 0 next = .ok ts → StartsPart ts)
    (ht : tokensFrom line 0 (c.text ++ '\n' :: next) = .ok ts) (h : readAnnotationTerm ts = .ok (a, rest)) :
    a.name = .ofList c.name ∧ ∃ line', tokensFrom line' 0 next = .ok rest := by
  have hhead : Reads line ('@' :: c.name) (⟨.symbol '@', line⟩ :: dottedTokens line (c.first :: c.more)) line
      (c.arguments ++ '\n' :: next) :=
    (reads_symbol line '@' _ (by decide) (by decide)).append (reads_dotted line c.words (c.endsWord next))
  obtain ⟨us, rfl, hus⟩ :=
    hhead.tokens (by rw [Capture.text, List.cons_append, List.append_assoc] at ht; exact ht)
  obtain ⟨us', hat, hterm⟩ := bind_eq_ok.1 h
  obtain ⟨⟨name, vs⟩, hname, hrest⟩ := bind_eq_ok.1 hterm
  obtain ⟨⟨as, rest'⟩, hargs, hend⟩ := bind_eq_ok.1 hrest
  obtain ⟨rfl, rfl⟩ := Prod.mk.inj (pure_eq_ok.1 hend)
  obtain ⟨_, rfl⟩ := expectSymbol_eq_ok hat
  obtain ⟨hends, harguments⟩ := readArguments_capture c hnext hus
  have hdotted := readDottedName_dotted line (readSegments_ends hends) c.first c.more
  rw [List.cons_append, List.tail_cons, hdotted] at hname
  obtain ⟨rfl, rfl⟩ := Prod.mk.inj (Except.ok.inj hname)
  exact ⟨rfl, harguments as _ hargs⟩

theorem readAnnotations_at {fuel : Nat} {as result : List AnnotationTerm} {ts rest : List Placed}
    (hat : isSymbolAt '@' ts = true) (hclass : isWordAt "class" rest = true)
    (h : readAnnotations fuel as ts = .ok (result, rest)) :
    ∃ a ts' fuel', readAnnotationTerm ts = .ok (a, ts') ∧
      readAnnotations fuel' (as ++ [a]) ts' = .ok (result, rest) := by
  cases fuel with
  | zero =>
    obtain ⟨rfl, rfl⟩ := Prod.mk.inj (Except.ok.inj h)
    rw [isSymbolAt_eq] at hat
    simp [isWordAt, hat] at hclass
  | succ fuel =>
    rw [readAnnotations, if_pos hat] at h
    obtain ⟨⟨a, ts'⟩, ha, h⟩ := bind_eq_ok.1 h
    exact ⟨a, ts', fuel, ha, h⟩

theorem readAnnotations_end {fuel : Nat} {as : List AnnotationTerm} {ts : List Placed}
    (h : StartsClass ts) : readAnnotations fuel as ts = .ok (as, ts) := by
  cases fuel with
  | zero => rfl
  | succ fuel =>
    simp only [StartsClass, isWordAt, beq_iff_eq] at h
    have hat : isSymbolAt '@' ts = false := by
      rcases h with h | h <;> simp [isSymbolAt, h]
    have hmodifier : isModifierAt ts = false := by
      rcases h with h | h <;> simp [isModifierAt, h, modifiers]
    rw [readAnnotations, if_neg (by simp [hat]), if_neg (by simp [hmodifier])]

def captureText (cs : List Capture) : List Char :=
  cs.flatMap fun c => c.text ++ ['\n']

theorem captureText_cons (c : Capture) (cs : List Capture) (body : List Char) :
    captureText (c :: cs) ++ body = c.text ++ '\n' :: (captureText cs ++ body) := by
  simp [captureText]

section
variable {body : List Char} (hbody : ∀ line ts, tokensFrom line 0 body = .ok ts → StartsClass ts)
include hbody

theorem startsPart_captureText {cs : List Capture} {line : Nat} {ts : List Placed}
    (h : tokensFrom line 0 (captureText cs ++ body) = .ok ts) : StartsPart ts := by
  cases cs with
  | nil => exact .inr (hbody line ts h)
  | cons c cs =>
    obtain ⟨us, rfl, _⟩ := (reads_symbol line '@' _ (by decide) (by decide)).tokens h
    exact .inl rfl

/-- The annotations read are those captured, and the declaration follows them. -/
theorem readAnnotations_captures {cs : List Capture} {line fuel : Nat} {as result : List AnnotationTerm}
    {ts rest : List Placed} (ht : tokensFrom line 0 (captureText cs ++ body) = .ok ts)
    (hclass : isWordAt "class" rest = true) (h : readAnnotations fuel as ts = .ok (result, rest)) :
    result.map AnnotationTerm.name = as.map AnnotationTerm.name ++ cs.map (String.ofList ∘ Capture.name) ∧
      ∃ line', tokensFrom line' 0 body = .ok rest := by
  induction cs generalizing line fuel as ts with
  | nil =>
    rw [readAnnotations_end (hbody line ts ht)] at h
    obtain ⟨rfl, rfl⟩ := Prod.mk.inj (Except.ok.inj h)
    exact ⟨by simp, line, ht⟩
  | cons c cs ih =>
    rw [captureText_cons] at ht
    obtain ⟨us, rfl, _⟩ := (reads_symbol line '@' _ (by decide) (by decide)).tokens ht
    obtain ⟨a, ts', fuel', ha, h⟩ := readAnnotations_at (by rfl) hclass h
    obtain ⟨hname, line', hts'⟩ :=
      readAnnotationTerm_capture (fun line ts hts => startsPart_captureText hbody hts) ht ha
    obtain ⟨hnames, hrest⟩ := ih hts' h
    refine ⟨?_, hrest⟩
    rw [hnames, List.map_append, List.map_singleton, hname, List.append_assoc]
    rfl

end

/-! ## Imports -/

def AnnotationKind.imported (k : AnnotationKind) : Import :=
  ⟨k.qualifiedName, none⟩

theorem AnnotationKind.isWritable_imported (k : AnnotationKind) : k.imported.IsWritable := by
  refine ⟨⟨_, k.isDottedName_qualifiedName, .inl rfl⟩, ?_, nofun⟩
  cases k <;> decide +kernel

def importTokens (line : Nat) (k : AnnotationKind) : List Placed :=
  k.imported.tokens line

theorem importStatement_write (k : AnnotationKind) : k.importStatement.toList = k.imported.write := by
  rw [AnnotationKind.importStatement, String.toList_append, String.toList_append]
  rfl

theorem reads_importStatement (line : Nat) (k : AnnotationKind) (rest : List Char) :
    Reads line (k.importStatement.toList ++ ['\n']) (importTokens line k) (line + 1) rest := by
  have := (Import.reads_write k.isWritable_imported line (['\n'] ++ rest)).append (reads_feed line rest)
  rwa [List.append_nil, ← importStatement_write] at this

def bothImports : List Import :=
  AnnotationKind.all.map fun k => ⟨k.qualifiedName, none⟩

theorem isWritable_bothImports : ∀ i ∈ bothImports, i.IsWritable := by
  intro i hi
  obtain ⟨k, _, rfl⟩ := List.mem_map.1 hi
  exact k.isWritable_imported

/-- The tokens of both imports, each on its line. -/
theorem linesTokens_bothImports (us : List Placed) :
    importTokens 1 .bootstrap ++ (importTokens 2 .updater ++ us) =
    linesTokens Import.tokens 1 bothImports ++ us := by
  simp [linesTokens, bothImports, AnnotationKind.all, importTokens, AnnotationKind.imported]

def readDeclaration (imports : List Import) (annotations : List AnnotationTerm) (ts : List Placed) :
    Except UnitError ParsedUnit := do
  if !isWordAt "class" ts then unexpected .classDeclaration ts
  else
    let ts := ts.tail
    let classLine := (current ts).line
    let (className, ts) ← readWord ts
    let ts ← expectSymbol '\x7b' ts
    let ts ← expectSymbol '\x7d' ts
    let ts := skipSemicolons ts
    if (current ts).token == .finish then
      return ⟨none, imports, annotations, className, classLine⟩
    else unexpected .finish ts

theorem readUnit_imports {us : List Placed} (h : StartsPart us) :
    readUnit (importTokens 1 .bootstrap ++ (importTokens 2 .updater ++ us)) =
      readAnnotations us.length [] us >>= fun p => readDeclaration bothImports p.1 p.2 := by
  generalize hts : importTokens 1 .bootstrap ++ (importTokens 2 .updater ++ us) = ts
  have hskip : skipSemicolons ts = ts := skipSemicolons_of_ne (by rw [← hts]; rfl)
  have hpackage : readPackage ts = .ok (none, ts) := by
    rw [← hts]
    rfl
  have himports : readImports ts.length [] ts = .ok (bothImports, us) := by
    rw [← hts, linesTokens_bothImports]
    apply Import.readImports_tokens isWritable_bothImports 1 (h.isSymbolAt (by decide))
      (h.isWordAt (by decide))
    rw [List.length_append]
    exact Nat.le_add_right_of_le (length_le_linesTokens (fun _ _ _ => List.cons_ne_nil _ _) _)
  unfold readUnit
  simp only [hskip, hpackage, himports, ok_bind]
  rfl

theorem parseUnit_imports {text : String} {rest : List Char}
    (h : text.toList = AnnotationKind.bootstrap.importStatement.toList ++ ['\n'] ++
      (AnnotationKind.updater.importStatement.toList ++ ['\n'] ++ rest)) :
    parseUnit text = tokensFrom 3 0 rest >>= fun us =>
      readUnit (importTokens 1 .bootstrap ++ (importTokens 2 .updater ++ us)) := by
  have hall := (reads_importStatement 1 .bootstrap _).append (reads_importStatement 2 .updater rest)
  have htokens : tokens text =
      (tokensFrom 3 0 rest).map ((importTokens 1 .bootstrap ++ importTokens 2 .updater) ++ ·) := by
    rw [tokens, h, ← List.append_assoc]
    exact hall
  rw [parseUnit, htokens]
  cases tokensFrom 3 0 rest with
  | error e => rfl
  | ok us =>
    have hparts : importTokens 1 .bootstrap ++ (importTokens 2 .updater ++ us) =
        importTokens 1 .bootstrap ++ importTokens 2 .updater ++ us := (List.append_assoc _ _ _).symm
    rw [ok_bind, hparts]
    rfl

/-! ## The declaration -/

theorem isWord_identifier {cs : List Char} (h : identifier cs ≠ []) : isWord (identifier cs) = true := by
  cases cs with
  | nil => exact absurd rfl h
  | cons c cs =>
    rw [identifier] at *
    split at h
    · rename_i hc
      rw [if_pos hc, isWord_cons]
      exact ⟨hc, List.all_eq_true.1 List.all_takeWhile⟩
    · exact absurd rfl h

structure ClassHeader.IsDeclaration (h : ClassHeader) : Prop where
  gap_ne : h.gap.toList ≠ []
  gap_blank : ∀ c ∈ h.gap.toList, isBlank c = true
  name : isWord h.name.toList = true

theorem isDeclaration_of_classHeaderFrom {offset : Nat} {inWord : Bool} {ms : List Marked} {h : ClassHeader}
    (hh : classHeaderFrom offset inWord ms = some h) : h.IsDeclaration := by
  induction ms generalizing offset inWord with
  | nil => cases hh
  | cons m ms ih =>
    rw [classHeaderFrom] at hh
    split at hh
    · rename_i gap name hdeclared
      obtain rfl := Option.some.inj hh
      split at hdeclared
      · unfold declaredName? at hdeclared
        dsimp only at hdeclared
        split at hdeclared
        · cases hdeclared
        · rename_i hne
          obtain ⟨rfl, rfl⟩ := Prod.mk.inj (Option.some.inj hdeclared)
          simp only [Bool.or_eq_true, List.isEmpty_iff, not_or] at hne
          refine ⟨?_, ?_, ?_⟩
          · rw [String.toList_ofList]
            exact hne.1
          · rw [String.toList_ofList]
            exact List.all_eq_true.1 List.all_takeWhile
          · rw [String.toList_ofList]
            exact isWord_identifier hne.2
      · cases hdeclared
    · exact ih hh

theorem tokensFrom_declaration {h : ClassHeader} (hh : h.IsDeclaration) (line : Nat) :
    ∃ line', tokensFrom line 0 (h.text ++ " \x7b\x7d").toList =
      .ok [⟨.word "class", line⟩, ⟨.word h.name, line'⟩, ⟨.symbol '\x7b', line'⟩,
        ⟨.symbol '\x7d', line'⟩, ⟨.finish, line'⟩] := by
  have hclass : isWord "class".toList = true := by decide
  have hbraces {line : Nat} :
      Reads line [' ', '\x7b', '\x7d'] [⟨.symbol '\x7b', line⟩, ⟨.symbol '\x7d', line⟩]
      line [] :=
    (reads_blank line (c := ' ') _ (by decide) (by decide)).append
      ((reads_symbol line '\x7b' _ (by decide) (by decide)).append
        (reads_symbol line '\x7d' _ (by decide) (by decide)))
  have hname := (reads_word (line + lineFeeds h.gap.toList) hh.name
    (endsWord_cons (c := ' ') (by decide) ['\x7b', '\x7d'])).append hbraces
  have hgap := (reads_blanks line _ hh.gap_blank).append hname
  have hkeyword : EndsWord (h.gap.toList ++ (h.name.toList ++ [' ', '\x7b', '\x7d']) ++ []) := by
    obtain ⟨c, gap, hc⟩ := List.exists_cons_of_ne_nil hh.gap_ne
    rw [hc]
    exact endsWord_cons (isIdentPart_of_isBlank (hh.gap_blank c (by simp [hc]))) _
  have hall := (reads_word line hclass hkeyword).append hgap
  refine ⟨line + lineFeeds h.gap.toList, ?_⟩
  have htext : (h.text ++ " \x7b\x7d").toList =
      "class".toList ++ (h.gap.toList ++ (h.name.toList ++ [' ', '\x7b', '\x7d'])) ++ [] := by
    simp [ClassHeader.text]
  rw [htext, hall]
  simp [tokensFrom, Except.map]

theorem startsClass_bareDeclaration {stripped : String} {line : Nat} {ts : List Placed}
    (h : tokensFrom line 0 (bareDeclaration stripped).toList = .ok ts) : StartsClass ts := by
  unfold bareDeclaration at h
  split at h
  · rename_i header hheader
    obtain ⟨line', hts⟩ := tokensFrom_declaration (isDeclaration_of_classHeaderFrom hheader) line
    rw [hts] at h
    rw [← Except.ok.inj h]
    exact .inl rfl
  · rw [← Except.ok.inj h]
    exact .inr rfl

/-! ## The unit -/

theorem captures_of_kind (source : String) (kind : AnnotationKind) :
    ∃ cs : List Capture,
      captureText cs = (firstText? kind (findAnnotations source)).toList.flatMap (·.toList ++ ['\n']) ∧
      cs.map (String.ofList ∘ Capture.name) = (firstOccurrence? kind source).toList.map Occurrence.name := by
  have htext : firstText? kind (findAnnotations source) =
      (firstOccurrence? kind source).map Occurrence.text := rfl
  rw [htext]
  cases ho : firstOccurrence? kind source with
  | none => exact ⟨[], rfl, rfl⟩
  | some o =>
    obtain ⟨c, hc, hname⟩ := exists_capture ho
    exact ⟨[c], by simp [captureText, hc], by simp [hname]⟩

theorem toList_render (source : String) :
    ∃ cs : List Capture,
      (∀ keepLineCount, (extract source keepLineCount).unit.render.toList =
        AnnotationKind.bootstrap.importStatement.toList ++ ['\n'] ++
          (AnnotationKind.updater.importStatement.toList ++ ['\n'] ++
            (captureText cs ++ (bareDeclaration (stripAnnotations source keepLineCount)).toList))) ∧
      cs.map (String.ofList ∘ Capture.name) =
        ((firstOccurrence? .bootstrap source).toList ++ (firstOccurrence? .updater source).toList).map
          Occurrence.name := by
  obtain ⟨cs, hcs, hnames⟩ := captures_of_kind source .bootstrap
  obtain ⟨cs', hcs', hnames'⟩ := captures_of_kind source .updater
  refine ⟨cs ++ cs', ?_, ?_⟩
  · intro keepLineCount
    have happend : captureText (cs ++ cs') = captureText cs ++ captureText cs' := List.flatMap_append
    rw [happend, hcs, hcs']
    simp [UnitText.render, extract, AnnotationKind.all, List.flatMap_map]
  · rw [List.map_append, List.map_append, hnames, hnames']

theorem readUnit_parts {cs : List Capture} {line : Nat} {stripped : String} {us : List Placed}
    {u : ParsedUnit}
    (hus : tokensFrom line 0 (captureText cs ++ (bareDeclaration stripped).toList) = .ok us)
    (h : readUnit (importTokens 1 .bootstrap ++ (importTokens 2 .updater ++ us)) = .ok u) :
    u.package = none ∧
      u.imports = bothImports ∧
      u.annotations.map AnnotationTerm.name = cs.map (String.ofList ∘ Capture.name) ∧
      (findClassHeader stripped).map ClassHeader.name = some u.className := by
  have hbody : ∀ line ts, tokensFrom line 0 (bareDeclaration stripped).toList = .ok ts → StartsClass ts :=
    fun line ts h => startsClass_bareDeclaration h
  rw [readUnit_imports (startsPart_captureText hbody hus)] at h
  obtain ⟨⟨annotations, rest⟩, hannotations, h⟩ := bind_eq_ok.1 h
  rw [readDeclaration] at h
  split at h
  · cases h
  · rename_i hclass
    simp only [Bool.not_eq_true', Bool.not_eq_false] at hclass
    obtain ⟨hnames, line₁, hrest⟩ := readAnnotations_captures hbody hus hclass hannotations
    unfold bareDeclaration at hrest
    split at hrest
    · rename_i header hheader
      obtain ⟨line₂, hdeclaration⟩ :=
        tokensFrom_declaration (isDeclaration_of_classHeaderFrom hheader) line₁
      obtain rfl := Except.ok.inj (hdeclaration.symm.trans hrest)
      change Except.ok (ParsedUnit.mk none _ annotations header.name line₂) = .ok u at h
      rw [← Except.ok.inj h, hheader]
      exact ⟨rfl, rfl, hnames, rfl⟩
    · rw [← Except.ok.inj hrest] at hclass
      cases hclass

theorem resolveKind_bothImports {name : String} {k : AnnotationKind}
    (h : AnnotationKind.ofName? name = some k) :
    resolveKind bothImports name = .ok k := by
  rcases AnnotationKind.ofName?_eq_some h with rfl | rfl <;> cases k <;> rfl

def capturedKinds (source : String) : List AnnotationKind :=
  AnnotationKind.all.filter fun k => (firstOccurrence? k source).isSome

theorem resolveKind_captured (source : String) :
    (((firstOccurrence? .bootstrap source).toList ++ (firstOccurrence? .updater source).toList).map
      Occurrence.name).map (resolveKind bothImports) = (capturedKinds source).map .ok := by
  have hkind (k : AnnotationKind) :
      (firstOccurrence? k source).toList.map (resolveKind bothImports ∘ Occurrence.name) =
      if (firstOccurrence? k source).isSome then [.ok k] else [] := by
    cases ho : firstOccurrence? k source with
    | none => rfl
    | some o =>
      have : AnnotationKind.ofName? o.name = some k := by simpa using List.find?_some ho
      simp [resolveKind_bothImports this]
  rw [List.map_map, List.map_append, hkind, hkind]
  cases hb : firstOccurrence? .bootstrap source <;> cases hu : firstOccurrence? .updater source <;>
    simp [capturedKinds, AnnotationKind.all, hb, hu]

theorem parseUnit_parts {source : String} {keepLineCount : Bool} {u : ParsedUnit}
    (h : parseUnit (extract source keepLineCount).unit.render = .ok u) :
    u.package = none ∧
      u.imports = bothImports ∧
      u.annotations.map AnnotationTerm.name =
        ((firstOccurrence? .bootstrap source).toList ++ (firstOccurrence? .updater source).toList).map
          Occurrence.name ∧
      (findClassHeader (stripAnnotations source keepLineCount)).map ClassHeader.name = some u.className := by
  obtain ⟨cs, htext, hnames⟩ := toList_render source
  rw [parseUnit_imports (htext keepLineCount)] at h
  obtain ⟨us, hus, hunit⟩ := bind_eq_ok.1 h
  obtain ⟨hpackage, himports, hannotations, hclass⟩ := readUnit_parts hus hunit
  rw [hnames] at hannotations
  exact ⟨hpackage, himports, hannotations, hclass⟩

/-- The annotations of a unit are of the kinds that were captured. -/
theorem resolveKind_annotations {source : String} {keepLineCount : Bool} {u : ParsedUnit}
    (h : parseUnit (extract source keepLineCount).unit.render = .ok u) :
    u.annotations.map (resolveKind u.imports ∘ AnnotationTerm.name) = (capturedKinds source).map .ok := by
  obtain ⟨-, himports, hannotations, -⟩ := parseUnit_parts h
  rw [← List.map_map, hannotations, himports]
  exact resolveKind_captured source

/-- A unit text that is a unit is read back as its parts: both imports, the annotations captured and
the class the stripped text declares. Its annotations resolve and are of different kinds. -/
theorem parseUnit_render {source : String} {keepLineCount : Bool} {u : ParsedUnit}
    (h : parseUnit (extract source keepLineCount).unit.render = .ok u) :
    u.package = none ∧
      u.imports = bothImports ∧
      u.annotations.map AnnotationTerm.name =
        ((firstOccurrence? .bootstrap source).toList ++ (firstOccurrence? .updater source).toList).map
          Occurrence.name ∧
      u.annotations.length = (extract source keepLineCount).unit.annotations.length ∧
      (findClassHeader (extract source keepLineCount).strippedBody).map ClassHeader.name = some u.className ∧
      ∀ ns script, (∀ name, ClassModel.ofUnit ns u script ≠ .error (.evaluation (.unresolvedName name))) ∧
        ∀ kind, ClassModel.ofUnit ns u script ≠ .error (.evaluation (.duplicateKind kind)) := by
  obtain ⟨hpackage, himports, hannotations, hclass⟩ := parseUnit_parts h
  have hlength : u.annotations.length = (extract source keepLineCount).unit.annotations.length := by
    have htexts : (extract source keepLineCount).unit.annotations =
        ((firstOccurrence? .bootstrap source).toList ++ (firstOccurrence? .updater source).toList).map
          Occurrence.text := by
      rw [List.map_append, ← Option.toList_map, ← Option.toList_map]
      rfl
    rw [htexts, List.length_map, ← List.length_map, hannotations, List.length_map]
  have hkinds := resolveKind_annotations h
  have hnodup : (capturedKinds source).Nodup := .filter _ (by decide)
  exact ⟨hpackage, himports, hannotations, hlength, hclass, fun ns script =>
    ⟨fun name he => isOfArguments_of_ofUnit hkinds hnodup he,
      fun kind he => isOfArguments_of_ofUnit hkinds hnodup he⟩⟩

/-- The annotations of the unit are in the order of the kinds. -/
theorem parseUnit_render_updater_first :
    ∃ u, parseUnit (extract "@Updater(name = 'x')\n@Bootstrap\nclass Fix \x7b \x7d" true).unit.render =
      .ok u ∧
      u.imports = bothImports ∧ u.annotations.map AnnotationTerm.name = ["Bootstrap", "Updater"] ∧
        u.className = "Fix" := by
  have htokens : tokens (extract "@Updater(name = 'x')\n@Bootstrap\nclass Fix \x7b \x7d" true).unit.render =
      .ok (importTokens 1 .bootstrap ++ (importTokens 2 .updater ++
        [⟨.symbol '@', 3⟩, ⟨.word "Bootstrap", 3⟩, ⟨.symbol '@', 4⟩, ⟨.word "Updater", 4⟩,
          ⟨.symbol '(', 4⟩, ⟨.word "name", 4⟩, ⟨.symbol '=', 4⟩, ⟨.text "x", 4⟩, ⟨.symbol ')', 4⟩,
          ⟨.word "class", 5⟩, ⟨.word "Fix", 5⟩, ⟨.symbol '\x7b', 5⟩, ⟨.symbol '\x7d', 5⟩, ⟨.finish, 5⟩])) :=
    eq_ok_of_toOption (by decide +kernel)
  have hunit : parseUnit (extract "@Updater(name = 'x')\n@Bootstrap\nclass Fix \x7b \x7d" true).unit.render =
      .ok ⟨none, bothImports, [⟨"Bootstrap", [], 3⟩, ⟨"Updater", [("name", .text "x")], 4⟩], "Fix",
        5⟩ := by
    rw [parseUnit, htokens]
    rfl
  obtain ⟨_, himports, hnames, _⟩ := parseUnit_render hunit
  exact ⟨_, hunit, himports, hnames.trans (by decide +kernel), rfl⟩

end UpdaterBootstrap
