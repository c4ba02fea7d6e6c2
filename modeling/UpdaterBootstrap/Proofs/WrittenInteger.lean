import UpdaterBootstrap.Proofs.WrittenUnit

/-!
# Written integers

An integer is written as an argument in the digits that are printed for it, after a field name or
alone. It is read back, wherever the annotation stands in a unit, unless it is the least one: digits
are read before the sign in front of them is applied, and its digits are out of range as a positive
number (`parse_integer`).
-/

namespace UpdaterBootstrap

/-! ## The least integer -/

theorem Reads.error {line line' : Nat} {a rest : List Char} {ts : List Placed} {e : UnitError}
    (h : Reads line a ts line' rest) (he : tokensFrom line' 0 rest = .error e) :
    tokensFrom line 0 (a ++ rest) = .error e := by
  rw [h, he]
  rfl

theorem tokensFrom_error {line : Nat} {c : Char} {cs : List Char} {e : UnitError}
    (hb : isBlank c = false) (hs : c ≠ '/')
    (h : readToken line c cs = .error e) : tokensFrom line 0 (c :: cs) = .error e := by
  rw [tokensFrom]
  simp only [hb, Bool.false_eq_true, if_false, beq_iff_eq, hs, Bool.and_eq_true, false_and, h]
  rfl

theorem tokensFrom_range (line : Nat) {n : Nat} (hn : Int64.maxValue.toInt.toNat < n) {rest : List Char}
    (hr : EndsValue rest) :
    tokensFrom line 0 (decimalDigits n ++ rest) = .error ⟨line, .range (.ofList (decimalDigits n))⟩ := by
  obtain ⟨c, cs, hdigits, hc, htoken⟩ := readToken_decimalDigits line n hr
  rw [readDigits, if_neg (Nat.not_le.2 hn)] at htoken
  have herror := tokensFrom_error (isBlank_of_isDigit hc) (ne_of_class hc (by decide)) htoken
  rwa [← List.cons_append, ← hdigits] at herror

def leastDigits : String := "9223372036854775808"

theorem tokensFrom_least (line : Nat) {rest : List Char} (hr : EndsValue rest) :
    tokensFrom line 0 ((Constant.integer Int64.minValue).display.toList ++ rest) =
      .error ⟨line, .range leastDigits⟩ := by
  have hdisplay : (Constant.integer Int64.minValue).display.toList = ['-'] ++
      decimalDigits 9223372036854775808 := by
    decide
  have hdigits : String.ofList (decimalDigits 9223372036854775808) = leastDigits := by decide
  rw [hdisplay, List.append_assoc, ← hdigits]
  exact (reads_symbol line '-' _ (by decide) (by decide)).error (tokensFrom_range line (by decide) hr)

/-! ## Arguments with an integer -/

theorem write_integer (style : QuoteStyle) (n : Int64) :
    (Constant.integer n).write style = (Constant.integer n).display.toList := by
  rw [Constant.write, Constant.display]

theorem reads_fieldName (line : Nat) {field : String} (h : isWord field.toList = true) (rest : List Char) :
    Reads line (field.toList ++ [' ', '=', ' ']) [⟨.word field, line⟩, ⟨.symbol '=', line⟩] line rest := by
  have hblank (cs : List Char) : Reads line [' '] [] line cs := reads_blank line cs (by decide) (by decide)
  have hequals := (hblank _).append ((reads_symbol line '=' _ (by decide) (by decide)).append (hblank rest))
  have hfield := (reads_word line h (endsWord_cons (by decide) _)).append hequals
  rwa [String.ofList_toList] at hfield

theorem exists_writeFields (style : QuoteStyle) (a : String × Constant) (as : List (String × Constant)) :
    ∃ more, writeFields style (a :: as) = writeField style a ++ more ∧
      ∀ rest, EndsValue (more ++ ')' :: rest) := by
  cases as with
  | nil => exact ⟨[], by simp [writeFields], fun rest => ⟨rest, .inr (.inl rfl)⟩⟩
  | cons b as => exact ⟨_, writeFields_cons style a b as, fun rest => ⟨_, .inl rfl⟩⟩

inductive IntegerArgument
  | named (before : List (String × Constant)) (field : String) (after : List (String × Constant))
  | alone

namespace IntegerArgument

def fields (n : Int64) : IntegerArgument → List (String × Constant)
  | named before field after => before ++ (field, .integer n) :: after
  | alone => [(positionalField, .integer n)]

def write (style : QuoteStyle) (n : Int64) : IntegerArgument → List Char
  | named before field after => writeFields style (before ++ (field, .integer n) :: after)
  | alone => (Constant.integer n).display.toList

def tokens (line : Nat) (n : Int64) : IntegerArgument → List Placed
  | named before field after => fieldsTokens line (before ++ (field, .integer n) :: after)
  | alone => (Constant.integer n).tokens line

inductive IsWritable : IntegerArgument → Prop
  | named {before after : List (String × Constant)} {field : String} (hbefore : AreWritable before)
      (hfield : isWord field.toList = true) (hafter : AreWritable after) :
      IsWritable (named before field after)
  | alone : IsWritable alone

theorem areWritable_named {before after : List (String × Constant)} {field : String} {n : Int64}
    (h : IsWritable (named before field after)) (hn : Int64.minValue < n) :
    AreWritable (before ++ (field, .integer n) :: after) := by
  cases h with
  | named hbefore hfield hafter =>
    intro a ha
    rcases List.mem_append.1 ha with ha | ha
    · exact hbefore a ha
    · rcases List.mem_cons.1 ha with rfl | ha
      · exact ⟨hfield, .integer hn⟩
      · exact hafter a ha

section
variable {style : QuoteStyle} (hq : isQuote style.quote = true) (line : Nat) {p : IntegerArgument}
  (hp : p.IsWritable)
  {n : Int64}
include hp

include hq in
theorem reads_write (hn : Int64.minValue < n) (rest : List Char) :
    Reads line (p.write style n) (p.tokens line n) line (')' :: rest) := by
  cases p with
  | named before field after => exact (inline_fields hq line (areWritable_named hp hn) rest).reads
  | alone => exact (inline_integer line hn ⟨rest, .inr (.inl rfl)⟩).reads

theorem readArguments_tokens (hn : Int64.minValue < n) (rest : List Placed) :
    readArguments (⟨.symbol '(', line⟩ :: (p.tokens line n ++ ⟨.symbol ')', line⟩ :: rest)) =
      .ok (p.fields n, rest) := by
  cases p with
  | named before field after => exact readArguments_fields (areWritable_named hp hn) line rest
  | alone =>
    have hclose : EndsTokens (⟨.symbol ')', line⟩ :: rest) := .inr (.inl rfl)
    have hvalue := readConstant_tokens (.integer hn) line hclose
    have hstart (ts : List Placed) : startsNamedArgument ((Constant.integer n).tokens line ++ ts) = false ∧
        isSymbolAt ')' ((Constant.integer n).tokens line ++ ts) = false := by
      rw [Constant.tokens]
      split <;> exact ⟨rfl, rfl⟩
    rw [readArguments_open rfl, List.tail_cons, readBetween, tokens, (hstart _).1,
      if_neg Bool.false_ne_true, (hstart _).2, if_neg Bool.false_ne_true, hvalue]
    rfl

omit hp in
include hq in
theorem tokensFrom_fields_least {before after : List (String × Constant)} {field : String}
    (hbefore : AreWritable before) (hfield : isWord field.toList = true) (rest : List Char) :
    tokensFrom line 0 (writeFields style (before ++ (field, .integer Int64.minValue) :: after) ++
      ')' :: rest) =
      .error ⟨line, .range leastDigits⟩ := by
  induction before with
  | nil =>
    obtain ⟨more, hmore, hends⟩ := exists_writeFields style (field, .integer Int64.minValue) after
    have hleast := (reads_fieldName line hfield _).error (tokensFrom_least line (hends rest))
    rw [List.nil_append, hmore, writeField, write_integer]
    simpa using hleast
  | cons a before ih =>
    obtain ⟨ha, hbefore⟩ := List.forall_mem_cons.1 hbefore
    obtain ⟨b, bs, hmore⟩ :=
      List.exists_cons_of_ne_nil (l := before ++ (field, .integer Int64.minValue) :: after) (by simp)
    have herror := ih hbefore
    rw [hmore] at herror
    have hcomma := (reads_symbol line ',' _ (by decide) (by decide)).append
      (reads_blank line (c := ' ') (writeFields style (b :: bs) ++ ')' :: rest) (by decide) (by decide))
    have hfirst := (inline_field hq line ha ⟨_, .inl rfl⟩).reads.append hcomma
    rw [List.cons_append, hmore, writeFields_cons]
    simpa using hfirst.error herror

include hq in
theorem tokensFrom_write_least (rest : List Char) :
    tokensFrom line 0 (p.write style Int64.minValue ++ ')' :: rest) = .error ⟨line, .range leastDigits⟩ := by
  cases hp with
  | named hbefore hfield => exact tokensFrom_fields_least hq line hbefore hfield rest
  | alone => exact tokensFrom_least line ⟨rest, .inr (.inl rfl)⟩

end

end IntegerArgument

/-! ## Units with an integer -/

structure IntegerPlace where
  package : Option String
  imports : List Import
  before : List WrittenAnnotation
  name : String
  argument : IntegerArgument
  after : List WrittenAnnotation
  className : String

namespace IntegerPlace

def writeTerm (style : QuoteStyle) (n : Int64) (p : IntegerPlace) : List Char :=
  '@' :: (p.name.toList ++ '(' :: (p.argument.write style n ++ [')']))

def write (style : QuoteStyle) (n : Int64) (p : IntegerPlace) : List Char :=
  writeLines WrittenUnit.writePackage p.package.toList ++ (writeLines Import.write p.imports ++
    (writeLines (·.write style) p.before ++ (p.writeTerm style n ++ ('\n' ::
      (writeLines (·.write style) p.after ++ WrittenUnit.writeClass p.className)))))

def firstLine (p : IntegerPlace) : Nat :=
  1 + p.package.toList.length + p.imports.length

def line (p : IntegerPlace) : Nat :=
  p.firstLine + p.before.length

def parsed (n : Int64) (p : IntegerPlace) : ParsedUnit where
  package := p.package
  imports := p.imports
  annotations :=
    (p.before.mapIdx fun i a => a.term (p.firstLine + i)) ++ ⟨p.name, p.argument.fields n, p.line⟩ ::
    p.after.mapIdx fun i a => a.term (p.line + 1 + i)
  className := p.className
  classLine := p.line + 1 + p.after.length

structure IsWritable (p : IntegerPlace) : Prop where
  package : ∀ name ∈ p.package, IsDottedName name.toList
  imports : ∀ i ∈ p.imports, i.IsWritable
  before : ∀ a ∈ p.before, a.IsWritable
  name : IsDottedName p.name.toList
  argument : p.argument.IsWritable
  after : ∀ a ∈ p.after, a.IsWritable
  className : isWord p.className.toList = true

def termTokens (line : Nat) (n : Int64) (p : IntegerPlace) : List Placed :=
  ⟨.symbol '@', line⟩ :: (nameTokens line p.name ++ ⟨.symbol '(', line⟩ ::
    (p.argument.tokens line n ++ [⟨.symbol ')', line⟩]))

def classTokens (last : Nat) (p : IntegerPlace) : List Placed :=
  WrittenUnit.classTokens (p.line + 1 + p.after.length) p.className ++ [⟨.finish, last⟩]

def annotationsTokens (last : Nat) (n : Int64) (p : IntegerPlace) : List Placed :=
  linesTokens WrittenAnnotation.tokens p.firstLine p.before ++ (p.termTokens p.line n ++
    (linesTokens WrittenAnnotation.tokens (p.line + 1) p.after ++ p.classTokens last))

theorem startsPart_annotationsTokens (last : Nat) (n : Int64) (p : IntegerPlace) :
    StartsPart (p.annotationsTokens last n) :=
  WrittenAnnotation.startsPart_tokens p.before _ (.inl rfl)

section
variable {style : QuoteStyle} (hq : isQuote style.quote = true) {p : IntegerPlace} (hp : p.IsWritable)
  {n : Int64}
include hp

theorem readAnnotationTerm_tokens (hn : Int64.minValue < n) (line : Nat) (rest : List Placed) :
    readAnnotationTerm (p.termTokens line n ++ rest) = .ok (⟨p.name, p.argument.fields n, line⟩, rest) := by
  have harguments := IntegerArgument.readArguments_tokens line hp.argument hn rest
  have hends (ts : List Placed) : EndsName (⟨.symbol '(', line⟩ :: ts) := by simp [EndsName, current]
  have hname (ts : List Placed) := readDottedName_name line hp.name (readSegments_ends (hends ts))
  have hat : expectSymbol '@' (p.termTokens line n ++ rest) =
    .ok (nameTokens line p.name ++ ⟨.symbol '(', line⟩ ::
      (p.argument.tokens line n ++ ⟨.symbol ')', line⟩ :: rest)) := by
    simp [termTokens, expectSymbol, isSymbolAt, current]
  rw [readAnnotationTerm]
  dsimp only
  rw [hat, ok_bind, hname, ok_bind]
  dsimp only
  rw [harguments, ok_bind]
  rfl

theorem readAnnotations_tokens (hn : Int64.minValue < n) (last : Nat) :
    readAnnotations (p.annotationsTokens last n).length [] (p.annotationsTokens last n) =
      .ok ((p.parsed n).annotations, p.classTokens last) := by
  have hclass : StartsClass (p.classTokens last) := .inl rfl
  have hat (ts : List Placed) : isSymbolAt '@' (p.termTokens p.line n ++ ts) = true := rfl
  have hbefore : p.before.length ≤ (linesTokens WrittenAnnotation.tokens p.firstLine p.before).length :=
    length_le_linesTokens (fun _ _ _ => List.cons_ne_nil _ _) _
  have hafter : p.after.length ≤ (linesTokens WrittenAnnotation.tokens (p.line + 1) p.after).length :=
    length_le_linesTokens (fun _ _ _ => List.cons_ne_nil _ _) _
  have hone : 1 ≤ (p.termTokens p.line n).length := Nat.succ_le_succ (Nat.zero_le _)
  obtain ⟨fuel, hlength, hfuel⟩ : ∃ fuel,
      (p.annotationsTokens last n).length = fuel + 1 + p.before.length ∧ p.after.length ≤ fuel := by
    refine ⟨(p.annotationsTokens last n).length - 1 - p.before.length, ?_, ?_⟩ <;>
      (simp only [annotationsTokens, List.length_append]; omega)
  have hrest (done : List AnnotationTerm) :=
    WrittenAnnotation.readAnnotations_tokens hp.after (p.line + 1) hclass hfuel done
  rw [hlength, annotationsTokens, WrittenAnnotation.readAnnotations_lines hp.before _ (.inl (hat _)),
    readAnnotations, if_pos (hat _), readAnnotationTerm_tokens hp hn, ok_bind]
  dsimp only
  rw [hrest, List.nil_append, List.append_assoc]
  rfl

theorem readUnit_tokens (hn : Int64.minValue < n) (last : Nat) :
    readUnit (linesTokens WrittenUnit.packageTokens 1 p.package.toList ++
      (linesTokens Import.tokens (1 + p.package.toList.length) p.imports ++ p.annotationsTokens last n)) =
        .ok (p.parsed n) :=
  WrittenUnit.readUnit_header hp.package hp.imports (startsPart_annotationsTokens last n p)
    (readAnnotations_tokens hp hn last)

include hq in
theorem reads_term (hn : Int64.minValue < n) (line : Nat) (rest : List Char) :
    Reads line (p.writeTerm style n) (p.termTokens line n) line rest := by
  have harguments := (IntegerArgument.reads_write hq line hp.argument hn rest).append
    (reads_symbol line ')' rest (by decide) (by decide))
  have hlist := (reads_symbol line '(' _ (by decide) (by decide)).append harguments
  have hname := (reads_name line hp.name (endsWord_cons (by decide) _)).append hlist
  exact (reads_symbol line '@' _ (by decide) (by decide)).append hname

include hq in
theorem tokensFrom_term_least (line : Nat) (rest : List Char) :
    tokensFrom line 0 (p.writeTerm style Int64.minValue ++ rest) = .error ⟨line, .range leastDigits⟩ := by
  have harguments := IntegerArgument.tokensFrom_write_least hq line hp.argument rest
  have hlist := (reads_symbol line '(' _ (by decide) (by decide)).error harguments
  have hname := (reads_name line hp.name (endsWord_cons (by decide) _)).error hlist
  have hat := (reads_symbol line '@' _ (by decide) (by decide)).error hname
  rw [writeTerm]
  simpa using hat

include hq in
theorem tokens_write (hn : Int64.minValue < n) {tail : List Char} (htail : ∀ c ∈ tail, isBlank c = true) :
    ∃ last, tokens (.ofList (p.write style n ++ tail)) =
      .ok (linesTokens WrittenUnit.packageTokens 1 p.package.toList ++
        (linesTokens Import.tokens (1 + p.package.toList.length) p.imports ++
          p.annotationsTokens last n)) := by
  have hend :=
    (WrittenUnit.reads_class hp.className (p.line + 1 + p.after.length) _).append (reads_blanks _ [] htail)
  have hafter := (reads_feed p.line _).append ((reads_annotationLines hq hp.after (p.line + 1) _).append hend)
  have hannotations := (reads_annotationLines hq hp.before p.firstLine _).append
    ((reads_term hq hp hn p.line _).append hafter)
  have hall := (WrittenUnit.reads_header hp.package hp.imports _).append hannotations
  have hfinish (line : Nat) : tokensFrom line 0 [] = .ok [⟨.finish, line⟩] := rfl
  rw [Reads, List.append_nil, hfinish] at hall
  refine ⟨p.line + 1 + p.after.length + lineFeeds tail, ?_⟩
  have htext : p.write style n ++ tail = (writeLines WrittenUnit.writePackage p.package.toList ++
      writeLines Import.write p.imports) ++
        (writeLines (·.write style) p.before ++ (p.writeTerm style n ++ (['\n'] ++
        (writeLines (·.write style) p.after ++ (WrittenUnit.writeClass p.className ++ tail))))) := by
    simp [write]
  rw [tokens, String.toList_ofList, htext, hall]
  simp [Except.map, annotationsTokens, classTokens]

include hq in
theorem tokens_write_least (tail : List Char) :
    tokens (.ofList (p.write style Int64.minValue ++ tail)) = .error ⟨p.line, .range leastDigits⟩ := by
  have hleast := tokensFrom_term_least hq hp p.line
    ('\n' :: (writeLines (·.write style) p.after ++ (WrittenUnit.writeClass p.className ++ tail)))
  have hannotations := (reads_annotationLines hq hp.before p.firstLine _).error hleast
  have hall := (WrittenUnit.reads_header hp.package hp.imports _).error hannotations
  rw [tokens, String.toList_ofList, write]
  simpa using hall

include hq in
/-- An integer is read back from the digits printed for it, with all around it as it was, unless it
is the least one; then the unit is rejected on the line of the integer. -/
theorem parse_integer (n : Int64) {tail : List Char} (htail : ∀ c ∈ tail, isBlank c = true)
    (history : UnitHistory) :
    history.parse (.ofList (p.write style n ++ tail)) =
      if n = Int64.minValue then (.error ⟨p.line, .range leastDigits⟩, history)
      else (.ok (p.parsed n), ⟨some p.className, history.unitsParsed + 1⟩) := by
  by_cases hn : n = Int64.minValue
  · subst hn
    rw [if_pos rfl, UnitHistory.parse, parseUnit, tokens_write_least hq hp]
    rfl
  · have hlt : Int64.minValue < n := by
      have := n.minValue_le_toInt
      rw [Int64.lt_iff_toInt_lt]
      rw [← Int64.toInt_inj] at hn
      omega
    obtain ⟨last, htokens⟩ := tokens_write hq hp hlt htail
    rw [if_neg hn, UnitHistory.parse, parseUnit, htokens, ok_bind, readUnit_tokens hp hlt]
    rfl

end

def single : IntegerPlace where
  package := none
  imports := []
  before := []
  name := "A"
  argument := .alone
  after := []
  className := "C"

theorem isWritable_single : single.IsWritable where
  package := nofun
  imports := nofun
  before := nofun
  name := by decide
  argument := .alone
  after := nofun
  className := by decide

theorem parse_integer_single :
    single.write ⟨'"', false⟩ (-9223372036854775807) = "@A(-9223372036854775807)\nclass C \x7b\x7d".toList ∧
    UnitHistory.empty.parse (.ofList (single.write ⟨'"', false⟩ (-9223372036854775807) ++ ['\n'])) =
      (.ok ⟨none, [], [⟨"A", [("value", .integer (-9223372036854775807))], 1⟩], "C", 2⟩,
        ⟨some "C", 1⟩) := by
  refine ⟨by decide, ?_⟩
  have hquote : isQuote (QuoteStyle.quote ⟨'"', false⟩) = true := rfl
  have hblank : ∀ c ∈ ['\n'], isBlank c = true := List.forall_mem_singleton.2 rfl
  have hread := parse_integer hquote isWritable_single (-9223372036854775807) hblank .empty
  rwa [if_neg (by decide)] at hread

/-- The least integer is not read back from what is printed for it. -/
theorem parse_integer_least :
    ¬ ∃ u, parseUnit ("@A(v = " ++ (Constant.integer Int64.minValue).display ++ ")\nclass C \x7b\x7d") =
      .ok u ∧
      u.annotations.map AnnotationTerm.arguments = [[("v", .integer Int64.minValue)]] := by
  rintro ⟨u, hu, -⟩
  have herror : parseUnit ("@A(v = " ++ (Constant.integer Int64.minValue).display ++ ")\nclass C \x7b\x7d") =
      .error ⟨1, .range "9223372036854775808"⟩ := by rfl
  rw [herror] at hu
  cases hu

end IntegerPlace

end UpdaterBootstrap
