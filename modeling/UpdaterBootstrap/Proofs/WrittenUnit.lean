import UpdaterBootstrap.Proofs.UnitText
import UpdaterBootstrap.Proofs.WrittenArguments

/-!
# Written units

A unit is written with its package, its imports, its annotations and its class on lines of their
own, and is read back as what it was, whatever was read before.
-/

namespace UpdaterBootstrap

/-! ## Annotations -/

structure WrittenAnnotation where
  name : String
  /-- The argument list, if one is written. -/
  list? : Option (List (String × Constant))

def writeList (style : QuoteStyle) : Option (List (String × Constant)) → List Char
  | some as => '(' :: (writeFields style as ++ [')'])
  | none => []

def listTokens (line : Nat) : Option (List (String × Constant)) → List Placed
  | some as => ⟨.symbol '(', line⟩ :: (fieldsTokens line as ++ [⟨.symbol ')', line⟩])
  | none => []

theorem reads_list {style : QuoteStyle} (hq : isQuote style.quote = true)
    {list? : Option (List (String × Constant))}
    (h : ∀ as ∈ list?, AreWritable as) (line : Nat) {rest : List Char} (hr : EndsWord rest) :
    EndsWord (writeList style list? ++ rest) ∧
      Reads line (writeList style list?) (listTokens line list?) line rest := by
  cases list? with
  | none => exact ⟨hr, reads_nil line rest⟩
  | some as =>
    have hclose := (inline_fields hq line (h as rfl) rest).reads.append
      (reads_symbol line ')' rest (by decide) (by decide))
    exact ⟨endsWord_cons (by decide) _, (reads_symbol line '(' _ (by decide) (by decide)).append hclose⟩

theorem readArguments_list {list? : Option (List (String × Constant))}
    (h : ∀ as ∈ list?, AreWritable as) (line : Nat) {ts : List Placed} (hts : StartsPart ts) :
    EndsName (listTokens line list? ++ ts) ∧
      readArguments (listTokens line list? ++ ts) = .ok (list?.getD [], ts) := by
  cases list? with
  | none =>
    refine ⟨hts.endsName, ?_⟩
    rw [listTokens, List.nil_append, readArguments, hts.isSymbolAt (by decide)]
    rfl
  | some as =>
    refine ⟨by simp [EndsName, listTokens, current], ?_⟩
    have := readArguments_fields (h as rfl) line ts
    simpa [listTokens] using this

namespace WrittenAnnotation

def write (style : QuoteStyle) (a : WrittenAnnotation) : List Char :=
  '@' :: (a.name.toList ++ writeList style a.list?)

def tokens (line : Nat) (a : WrittenAnnotation) : List Placed :=
  ⟨.symbol '@', line⟩ :: (nameTokens line a.name ++ listTokens line a.list?)

def term (line : Nat) (a : WrittenAnnotation) : AnnotationTerm :=
  ⟨a.name, a.list?.getD [], line⟩

structure IsWritable (a : WrittenAnnotation) : Prop where
  name : IsDottedName a.name.toList
  arguments : ∀ as ∈ a.list?, AreWritable as

theorem reads_write {style : QuoteStyle} (hq : isQuote style.quote = true) {a : WrittenAnnotation}
    (ha : a.IsWritable) (line : Nat) {rest : List Char} (hr : EndsWord rest) :
    Reads line (a.write style) (a.tokens line) line rest := by
  obtain ⟨hends, hlist⟩ := reads_list hq ha.arguments line hr
  exact (reads_symbol line '@' _ (by decide) (by decide)).append
    ((reads_name line ha.name hends).append hlist)

theorem readAnnotationTerm_tokens {a : WrittenAnnotation} (ha : a.IsWritable) (line : Nat)
    {rest : List Placed}
    (hrest : StartsPart rest) : readAnnotationTerm (a.tokens line ++ rest) = .ok (a.term line, rest) := by
  obtain ⟨hends, harguments⟩ := readArguments_list ha.arguments line hrest
  have hname := readDottedName_name line ha.name (readSegments_ends hends)
  have hat : expectSymbol '@' (a.tokens line ++ rest) =
      .ok (nameTokens line a.name ++ (listTokens line a.list? ++ rest)) := by
    rw [tokens, List.cons_append, List.append_assoc]
    rfl
  rw [readAnnotationTerm]
  dsimp only
  rw [hat, ok_bind, hname, ok_bind]
  dsimp only
  rw [harguments, ok_bind]
  rfl

theorem startsPart_tokens (as : List WrittenAnnotation) (line : Nat) {ts : List Placed}
    (hts : StartsPart ts) :
    StartsPart (linesTokens tokens line as ++ ts) := by
  cases as with
  | nil => exact hts
  | cons a as => exact .inl rfl

/-- Annotations on lines of their own are read one after the other, whatever part comes next. -/
theorem readAnnotations_lines {as : List WrittenAnnotation} (has : ∀ a ∈ as, a.IsWritable) (line : Nat)
    {ts : List Placed} (hts : StartsPart ts) (fuel : Nat) (done : List AnnotationTerm) :
    readAnnotations (fuel + as.length) done (linesTokens tokens line as ++ ts) =
      readAnnotations fuel (done ++ as.mapIdx fun i a => a.term (line + i)) ts := by
  induction as generalizing line done with
  | nil => simp [linesTokens]
  | cons a as ih =>
    obtain ⟨ha, has⟩ := List.forall_mem_cons.1 has
    have hat : isSymbolAt '@' (linesTokens tokens line (a :: as) ++ ts) = true := rfl
    rw [List.length_cons, ← Nat.add_assoc, readAnnotations, if_pos hat, linesTokens, List.append_assoc,
      readAnnotationTerm_tokens ha line (startsPart_tokens as _ hts), ok_bind]
    dsimp only
    rw [ih has (line + 1)]
    simp [List.mapIdx_cons, Nat.add_assoc, Nat.add_comm 1]

theorem readAnnotations_tokens {as : List WrittenAnnotation} (has : ∀ a ∈ as, a.IsWritable) (line : Nat)
    {ts : List Placed} (hts : StartsClass ts) {fuel : Nat} (hfuel : as.length ≤ fuel)
    (done : List AnnotationTerm) :
    readAnnotations fuel done (linesTokens tokens line as ++ ts) =
      .ok (done ++ as.mapIdx fun i a => a.term (line + i), ts) := by
  obtain ⟨fuel, rfl⟩ := Nat.exists_eq_add_of_le' hfuel
  rw [readAnnotations_lines has line (.inr hts), readAnnotations_end hts]

end WrittenAnnotation

theorem reads_annotationLines {style : QuoteStyle} (hq : isQuote style.quote = true)
    {as : List WrittenAnnotation} (has : ∀ a ∈ as, a.IsWritable) (line : Nat) (rest : List Char) :
    Reads line (writeLines (·.write style) as) (linesTokens WrittenAnnotation.tokens line as)
      (line + as.length) rest :=
  reads_lines (fun a ha line rest =>
    WrittenAnnotation.reads_write hq (has a ha) line (endsWord_cons (by decide) rest))
    line rest

/-! ## Units -/

structure WrittenUnit where
  package : Option String
  imports : List Import
  annotations : List WrittenAnnotation
  className : String

namespace WrittenUnit

def writePackage (name : String) : List Char :=
  "package".toList ++ ' ' :: (name.toList ++ [';'])

def writeClass (name : String) : List Char :=
  "class".toList ++ ' ' :: (name.toList ++ [' ', '\x7b', '\x7d'])

def write (style : QuoteStyle) (u : WrittenUnit) : List Char :=
  writeLines writePackage u.package.toList ++ (writeLines Import.write u.imports ++
    (writeLines (·.write style) u.annotations ++ writeClass u.className))

def annotationLine (u : WrittenUnit) : Nat :=
  1 + u.package.toList.length + u.imports.length

def parsed (u : WrittenUnit) : ParsedUnit where
  package := u.package
  imports := u.imports
  annotations := u.annotations.mapIdx fun i a => a.term (u.annotationLine + i)
  className := u.className
  classLine := u.annotationLine + u.annotations.length

structure IsWritable (u : WrittenUnit) : Prop where
  package : ∀ name ∈ u.package, IsDottedName name.toList
  imports : ∀ i ∈ u.imports, i.IsWritable
  annotations : ∀ a ∈ u.annotations, a.IsWritable
  className : isWord u.className.toList = true

/-! ### Tokens -/

def packageTokens (line : Nat) (name : String) : List Placed :=
  ⟨.word "package", line⟩ :: (nameTokens line name ++ [⟨.symbol ';', line⟩])

def classTokens (line : Nat) (name : String) : List Placed :=
  [⟨.word "class", line⟩, ⟨.word name, line⟩, ⟨.symbol '\x7b', line⟩, ⟨.symbol '\x7d', line⟩]

def importsTokens (line last : Nat) (u : WrittenUnit) : List Placed :=
  linesTokens Import.tokens line u.imports ++
    (linesTokens WrittenAnnotation.tokens (line + u.imports.length) u.annotations ++
      (classTokens (line + u.imports.length + u.annotations.length) u.className ++ [⟨.finish, last⟩]))

theorem reads_package {name : String} (h : IsDottedName name.toList) (line : Nat) (rest : List Char) :
    Reads line (writePackage name) (packageTokens line name) line rest := by
  have hname := (reads_name line h (endsWord_cons (c := ';') (by decide) _)).append
    (reads_symbol line ';' rest (by decide) (by decide))
  have hblank := (reads_blank line (c := ' ') _ (by decide) (by decide)).append hname
  have :=
    (reads_word line (w := "package".toList) (by decide)
      (endsWord_cons (c := ' ') (by decide) _)).append hblank
  rw [String.ofList_toList] at this
  exact this

theorem reads_class {name : String} (h : isWord name.toList = true) (line : Nat) (rest : List Char) :
    Reads line (writeClass name) (classTokens line name) line rest := by
  have hbraces := (reads_blank line (c := ' ') _ (by decide) (by decide)).append
    ((reads_symbol line '\x7b' _ (by decide) (by decide)).append
      (reads_symbol line '\x7d' rest (by decide) (by decide)))
  have hname := (reads_word line h (endsWord_cons (c := ' ') (by decide) _)).append hbraces
  have hblank := (reads_blank line (c := ' ') _ (by decide) (by decide)).append hname
  have :=
    (reads_word line (w := "class".toList) (by decide) (endsWord_cons (c := ' ') (by decide) _)).append hblank
  rw [String.ofList_toList, String.ofList_toList] at this
  exact this

theorem reads_header {package : Option String} {imports : List Import}
    (hpackage : ∀ name ∈ package, IsDottedName name.toList)
    (himports : ∀ i ∈ imports, i.IsWritable) (rest : List Char) :
    Reads 1 (writeLines writePackage package.toList ++ writeLines Import.write imports)
      (linesTokens packageTokens 1 package.toList ++
        linesTokens Import.tokens (1 + package.toList.length) imports)
      (1 + package.toList.length + imports.length) rest :=
  (reads_lines (fun name hname line _ =>
    reads_package (hpackage name (Option.mem_toList.1 hname)) line _) 1 _).append
    (reads_lines (fun i hi line _ => Import.reads_write (himports i hi) line _) _ rest)

theorem tokens_write {style : QuoteStyle} (hq : isQuote style.quote = true) {u : WrittenUnit}
    (hu : u.IsWritable) {tail : List Char} (htail : ∀ c ∈ tail, isBlank c = true) :
    ∃ last, tokens (.ofList (u.write style ++ tail)) =
      .ok (linesTokens packageTokens 1 u.package.toList ++
        u.importsTokens (1 + u.package.toList.length) last) := by
  have hend (line : Nat) := (reads_class hu.className line _).append (reads_blanks line [] htail)
  have hannotations (line : Nat) :=
    (reads_annotationLines hq hu.annotations line _).append (hend (line + u.annotations.length))
  have hall := (reads_header hu.package hu.imports _).append
    (hannotations (1 + u.package.toList.length + u.imports.length))
  have hfinish (line : Nat) : tokensFrom line 0 [] = .ok [⟨.finish, line⟩] := rfl
  have htext : u.write style ++ tail =
    (writeLines writePackage u.package.toList ++ writeLines Import.write u.imports) ++
      (writeLines (·.write style) u.annotations ++ (writeClass u.className ++ tail)) := by
    simp [write]
  rw [Reads, List.append_nil, hfinish] at hall
  refine ⟨1 + u.package.toList.length + u.imports.length + u.annotations.length + lineFeeds tail, ?_⟩
  rw [tokens, String.toList_ofList, htext, hall]
  simp [Except.map, importsTokens]

/-! ### Reading -/

theorem readPackage_tokens {package : Option String} (h : ∀ name ∈ package, IsDottedName name.toList)
    (line : Nat)
    {ts : List Placed} (hts : isSymbolAt ';' ts = false) (hword : isWordAt "package" ts = false) :
    readPackage (linesTokens packageTokens line package.toList ++ ts) = .ok (package, ts) := by
  cases package with
  | none =>
    rw [Option.toList_none, linesTokens, List.nil_append, readPackage, hword]
    rfl
  | some name =>
    have hends : EndsName (⟨.symbol ';', line⟩ :: ts) := by simp [EndsName, current]
    have hname := readDottedName_name line (h name rfl) (readSegments_ends hends)
    have hstart : linesTokens packageTokens line (some name).toList ++ ts =
        ⟨.word "package", line⟩ :: (nameTokens line name ++ ⟨.symbol ';', line⟩ :: ts) := by
      simp [linesTokens, packageTokens]
    have hpackage (us : List Placed) : isWordAt "package" (⟨.word "package", line⟩ :: us) = true := rfl
    have hskip : skipSemicolons (⟨.symbol ';', line⟩ :: ts) = ts := skipSemicolons_of_ne hts
    rw [hstart, readPackage, if_pos (hpackage _), List.tail_cons, hname, ok_bind]
    dsimp only
    rw [hskip]
    rfl

/-- After the package and the imports only annotations and the class are left to read. -/
theorem readUnit_header {package : Option String} {imports : List Import}
    (hpackage : ∀ name ∈ package, IsDottedName name.toList)
    (himports : ∀ i ∈ imports, i.IsWritable) {rest : List Placed} (hrest : StartsPart rest)
    {annotations : List AnnotationTerm} {className : String} {line last : Nat}
    (h : readAnnotations rest.length [] rest =
      .ok (annotations, classTokens line className ++ [⟨.finish, last⟩])) :
    readUnit (linesTokens packageTokens 1 package.toList ++
      (linesTokens Import.tokens (1 + package.toList.length) imports ++ rest)) =
        .ok ⟨package, imports, annotations, className, line⟩ := by
  generalize 1 + package.toList.length = first
  generalize hus : linesTokens Import.tokens first imports ++ rest = us
  have hstart : isSymbolAt ';' us = false ∧ isWordAt "package" us = false := by
    rw [← hus]
    cases imports with
    | nil => exact ⟨hrest.isSymbolAt (by decide), hrest.isWordAt (by decide)⟩
    | cons i is => exact ⟨rfl, rfl⟩
  have himports : readImports us.length [] us = .ok (imports, rest) := by
    rw [← hus]
    apply Import.readImports_tokens himports first (hrest.isSymbolAt (by decide)) (hrest.isWordAt (by decide))
    rw [List.length_append]
    exact Nat.le_add_right_of_le (length_le_linesTokens (fun _ _ _ => List.cons_ne_nil _ _) _)
  have hread := readPackage_tokens hpackage 1 hstart.1 hstart.2
  have hskip : skipSemicolons (linesTokens packageTokens 1 package.toList ++ us) =
      linesTokens packageTokens 1 package.toList ++ us := by
    apply skipSemicolons_of_ne
    cases package with
    | none => exact hstart.1
    | some name => rfl
  unfold readUnit
  simp only [hskip, hread, himports, h, ok_bind]
  rfl

theorem readUnit_tokens {u : WrittenUnit} (hu : u.IsWritable) (last : Nat) :
    readUnit (linesTokens packageTokens 1 u.package.toList ++
      u.importsTokens (1 + u.package.toList.length) last) =
      .ok u.parsed := by
  have hclass : StartsClass (classTokens u.parsed.classLine u.className ++ [⟨.finish, last⟩]) := .inl rfl
  generalize hrest : linesTokens WrittenAnnotation.tokens u.annotationLine u.annotations ++
    (classTokens u.parsed.classLine u.className ++ [⟨.finish, last⟩]) = rest
  have hpart : StartsPart rest := by
    rw [← hrest]
    exact WrittenAnnotation.startsPart_tokens u.annotations _ (.inr hclass)
  have hannotations : readAnnotations rest.length [] rest =
      .ok (u.parsed.annotations, classTokens u.parsed.classLine u.className ++ [⟨.finish, last⟩]) := by
    rw [← hrest, WrittenAnnotation.readAnnotations_tokens hu.annotations _ hclass]
    · rfl
    · rw [List.length_append]
      exact Nat.le_add_right_of_le (length_le_linesTokens (fun _ _ _ => List.cons_ne_nil _ _) _)
  have hread := readUnit_header hu.package hu.imports hpart hannotations
  rw [← hrest] at hread
  exact hread

theorem parseUnit_write {style : QuoteStyle} (hq : isQuote style.quote = true) {u : WrittenUnit}
    (hu : u.IsWritable) {tail : List Char} (htail : ∀ c ∈ tail, isBlank c = true) :
    parseUnit (.ofList (u.write style ++ tail)) = .ok u.parsed := by
  obtain ⟨last, htokens⟩ := tokens_write hq hu htail
  rw [parseUnit, htokens, ok_bind, readUnit_tokens hu]

/-- A unit that is written is read back as it was, each of its parts on the line where it was
written. -/
theorem parse_write {style : QuoteStyle} (hq : isQuote style.quote = true) {u : WrittenUnit}
    (hu : u.IsWritable)
    {tail : List Char} (htail : ∀ c ∈ tail, isBlank c = true) (history : UnitHistory) :
    history.parse (.ofList (u.write style ++ tail)) =
      (.ok u.parsed, ⟨some u.className, history.unitsParsed + 1⟩) := by
  rw [UnitHistory.parse, parseUnit_write hq hu htail]
  rfl

def keywords : WrittenUnit where
  package := some "package.as"
  imports := [⟨"import.class.*", some "static"⟩, ⟨"as", none⟩]
  annotations := [
    ⟨"class.package", some [("import", .list [.integer (-9223372036854775807), .list [], .text "$\"\n"]),
      ("class", .reference "as.true")]⟩,
    ⟨"interface", none⟩]
  className := "import"

theorem isWritable_keywords : keywords.IsWritable where
  package := by
    rintro _ ⟨⟩
    decide
  imports := by
    refine List.forall_mem_cons.2 ⟨⟨⟨"import.class".toList, by decide, .inr rfl⟩, by decide, ?_⟩,
      List.forall_mem_singleton.2 ⟨⟨"as".toList, by decide, .inl rfl⟩, by decide, nofun⟩⟩
    rintro _ ⟨⟩
    decide
  annotations := by
    refine List.forall_mem_cons.2 ⟨⟨by decide, ?_⟩, List.forall_mem_singleton.2 ⟨by decide, nofun⟩⟩
    rintro _ ⟨⟩
    refine List.forall_mem_cons.2 ⟨⟨by decide, .list ?_⟩,
      List.forall_mem_singleton.2 ⟨by decide, .reference (by decide) (by decide) (by decide)⟩⟩
    exact List.forall_mem_cons.2 ⟨.integer (by decide), List.forall_mem_cons.2
      ⟨.list (List.forall_mem_nil _), List.forall_mem_singleton.2 (.text _)⟩⟩
  className := by decide

theorem parse_write_keywords :
    keywords.write ⟨'"', false⟩ ++ ['\n'] =
      ("package package.as;\nimport import.class.* as static;\nimport as;\n" ++
      "@class.package(import = [-9223372036854775807, [], \"\\$\\\"\\n\"], class = as.true)\n@interface\n" ++
      "class import \x7b\x7d\n").toList ∧
    UnitHistory.empty.parse (.ofList (keywords.write ⟨'"', false⟩ ++ ['\n'])) =
      (.ok keywords.parsed, ⟨some "import", 1⟩) :=
  ⟨by decide +kernel, parse_write rfl isWritable_keywords (List.forall_mem_singleton.2 rfl) .empty⟩

end WrittenUnit

end UpdaterBootstrap
