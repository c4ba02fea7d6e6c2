import UpdaterBootstrap.Proofs.DottedName

/-!
# Written imports

Import statements are written on lines of their own and read back as the imports they were written for.
-/

namespace UpdaterBootstrap

theorem skipSemicolons_of_ne {ts : List Placed} (h : isSymbolAt ';' ts = false) : skipSemicolons ts = ts := by
  cases ts with
  | nil => rfl
  | cons t ts =>
    have : (t.token == .symbol ';') = false := h
    simp [skipSemicolons, this]

namespace Import

def writeRenamed : Option String → List Char
  | some a => ' ' :: ("as".toList ++ ' ' :: a.toList)
  | none => []

def write (i : Import) : List Char :=
  "import".toList ++ ' ' :: (i.path.toList ++ (writeRenamed i.renamed? ++ [';']))

def pathTokens (line : Nat) (i : Import) : List Placed :=
  match i.package? with
  | some package => nameTokens line package ++ [⟨.symbol '.', line⟩, ⟨.symbol '*', line⟩]
  | none => nameTokens line i.path

def renamedTokens (line : Nat) : Option String → List Placed
  | some a => [⟨.word "as", line⟩, ⟨.word a, line⟩]
  | none => []

def tokens (line : Nat) (i : Import) : List Placed :=
  ⟨.word "import", line⟩ :: (i.pathTokens line ++ (renamedTokens line i.renamed? ++ [⟨.symbol ';', line⟩]))

structure IsWritable (i : Import) : Prop where
  path : ∃ name, IsDottedName name ∧ (i.path.toList = name ∨ i.path.toList = name ++ wildcard)
  notStatic : firstSegment i.path.toList ≠ "static".toList
  renamed : ∀ a ∈ i.renamed?, isWord a.toList = true

end Import

/-! ## The path -/

theorem isDottedName_not_wildcard {name : List Char} (h : IsDottedName name) :
    ¬ Import.wildcard <:+ name := by
  rintro ⟨a, rfl⟩
  have hstar : '*' ∈ dottedName (a ++ Import.wildcard) := by
    rw [h.dottedName_eq]
    simp [Import.wildcard]
  rcases mem_dottedName hstar with h | h
  · revert h
    decide
  · revert h
    decide

theorem firstSegment_append {name rest : List Char} :
    firstSegment (name ++ '.' :: rest) = firstSegment name := by
  induction name with
  | nil => rfl
  | cons c name ih =>
    rw [firstSegment, List.cons_append, List.takeWhile_cons, firstSegment, List.takeWhile_cons]
    split
    · exact congrArg (c :: ·) ih
    · rfl

namespace Import

/-- A path is a dotted name, or one with a star after it. -/
theorem IsWritable.path_cases {i : Import} (h : i.IsWritable) (line : Nat) :
    ∃ name : String, IsDottedName name.toList ∧ firstSegment name.toList ≠ "static".toList ∧
      (i.path = name ∧ i.pathTokens line = nameTokens line name ∨
        i.path = name ++ .ofList wildcard ∧
          i.pathTokens line = nameTokens line name ++ [⟨.symbol '.', line⟩, ⟨.symbol '*', line⟩]) := by
  obtain ⟨name, hname, hpath | hpath⟩ := h.path
  · refine ⟨i.path, hpath ▸ hname, h.notStatic, .inl ⟨rfl, ?_⟩⟩
    have hnot : wildcard.isSuffixOf i.path.toList = false := by
      rw [← Bool.not_eq_true, List.isSuffixOf_iff_suffix, hpath]
      exact isDottedName_not_wildcard hname
    rw [pathTokens, package?, hnot, if_neg Bool.false_ne_true]
  · have hfirst := h.notStatic
    rw [hpath, wildcard, firstSegment_append] at hfirst
    refine ⟨.ofList name, by rwa [String.toList_ofList], by rwa [String.toList_ofList], .inr ⟨?_, ?_⟩⟩
    · rw [← String.ofList_append, ← hpath, String.ofList_toList]
    · have hsuffix : wildcard.isSuffixOf i.path.toList = true := by
        rw [List.isSuffixOf_iff_suffix, hpath]
        exact List.suffix_append name wildcard
      have hdrop : (name ++ wildcard).dropLast.dropLast = name := by simp [wildcard]
      rw [pathTokens, package?, if_pos hsuffix, hpath, hdrop]

theorem IsWritable.exists_pathTokens {i : Import} (h : i.IsWritable) (line : Nat) :
    ∃ first ts, first ≠ "static" ∧ i.pathTokens line = ⟨.word first, line⟩ :: ts := by
  obtain ⟨name, hname, hfirst, hpath⟩ := h.path_cases line
  have hne : String.ofList (firstSegment name.toList) ≠ "static" := by
    intro heq
    rw [← heq, String.toList_ofList] at hfirst
    exact hfirst rfl
  obtain ⟨ts, hts⟩ := nameTokens_eq line hname
  rcases hpath with ⟨_, hpath⟩ | ⟨_, hpath⟩
  · exact ⟨_, ts, hne, by rw [hpath, hts]⟩
  · exact ⟨_, _, hne, by rw [hpath, hts, List.cons_append]⟩

theorem reads_path {i : Import} (h : i.IsWritable) (line : Nat) {rest : List Char} (hr : EndsWord rest) :
    Reads line i.path.toList (i.pathTokens line) line rest := by
  obtain ⟨name, hname, _, ⟨hpath, htokens⟩ | ⟨hpath, htokens⟩⟩ := h.path_cases line
  · rw [htokens, hpath]
    exact reads_name line hname hr
  · rw [htokens, hpath, String.toList_append, String.toList_ofList]
    have hstar := (reads_symbol line '.' _ (by decide) (by decide)).append
      (reads_symbol line '*' rest (by decide) (by decide))
    exact (reads_name line hname (endsWord_cons (by decide) _)).append hstar

/-! ## The statement -/

theorem reads_renamed (line : Nat) {renamed? : Option String} (h : ∀ a ∈ renamed?, isWord a.toList = true)
    (rest : List Char) : EndsWord (writeRenamed renamed? ++ [';'] ++ rest) ∧
      Reads line (writeRenamed renamed? ++ [';']) (renamedTokens line renamed? ++ [⟨.symbol ';', line⟩])
        line rest := by
  have hend := reads_symbol line ';' rest (by decide) (by decide)
  cases renamed? with
  | none => exact ⟨endsWord_cons (c := ';') (by decide) rest, hend⟩
  | some a =>
    refine ⟨endsWord_cons (c := ' ') (by decide) _, ?_⟩
    have hname := (reads_word line (h a rfl) (endsWord_cons (c := ';') (by decide) rest)).append hend
    have hblank := (reads_blank line (c := ' ') _ (by decide) (by decide)).append hname
    have has :=
      (reads_word line (w := "as".toList) (by decide) (endsWord_cons (c := ' ') (by decide) _)).append hblank
    have hall := (reads_blank line (c := ' ') _ (by decide) (by decide)).append has
    rw [String.ofList_toList, String.ofList_toList] at hall
    simpa only [writeRenamed, renamedTokens, List.append_assoc, List.cons_append, List.nil_append,
      List.singleton_append] using hall

theorem reads_write {i : Import} (h : i.IsWritable) (line : Nat) (rest : List Char) :
    Reads line i.write (i.tokens line) line rest := by
  obtain ⟨hends, hrenamed⟩ := reads_renamed line h.renamed rest
  have hpath := (reads_path h line hends).append hrenamed
  have hblank := (reads_blank line (c := ' ') _ (by decide) (by decide)).append hpath
  have :=
    (reads_word line (w := "import".toList) (by decide) (endsWord_cons (c := ' ') (by decide) _)).append
      hblank
  rw [String.ofList_toList] at this
  exact this

/-- The name, the star and the other name are read one after the other. -/
theorem readImport_parts {ts ts₁ ts₂ ts₃ : List Placed} {name path : String} {renamed? : Option String}
    (hstatic : isWordAt "static" ts = false) (hname : readDottedName ts = .ok (name, ts₁))
    (hpath : isSymbolAt '.' ts₁ = false ∧ path = name ∧ ts₂ = ts₁ ∨
      isSymbolAt '.' ts₁ = true ∧ path = name ++ .ofList wildcard ∧ expectSymbol '*' ts₁.tail = .ok ts₂)
    (hrenamed : isWordAt "as" ts₂ = false ∧ renamed? = none ∧ ts₃ = ts₂ ∨
      isWordAt "as" ts₂ = true ∧ ∃ a, renamed? = some a ∧ readWord ts₂.tail = .ok (a, ts₃)) :
    readImport ts = .ok (⟨path, renamed?⟩, skipSemicolons ts₃) := by
  unfold readImport
  rw [hstatic, if_neg Bool.false_ne_true]
  rcases hpath with ⟨hpoint, rfl, rfl⟩ | ⟨hpoint, rfl, hstar⟩
  · rcases hrenamed with ⟨has, rfl, rfl⟩ | ⟨has, a, rfl, hword⟩
    · simp only [hname, ok_bind, hpoint, has, Bool.false_eq_true, if_false]
      rfl
    · simp only [hname, ok_bind, hpoint, has, hword, Bool.false_eq_true, if_false, if_true]
      rfl
  · rcases hrenamed with ⟨has, rfl, rfl⟩ | ⟨has, a, rfl, hword⟩
    · simp only [hname, ok_bind, hpoint, hstar, has, Bool.false_eq_true, if_false, if_true]
      rfl
    · simp only [hname, ok_bind, hpoint, hstar, has, hword, if_true]
      rfl

theorem readImport_tokens {i : Import} (h : i.IsWritable) (line : Nat) {ts : List Placed}
    (hts : isSymbolAt ';' ts = false) : readImport ((i.tokens line).tail ++ ts) = .ok (i, ts) := by
  obtain ⟨first, us, hfirst, hus⟩ := h.exists_pathTokens line
  obtain ⟨name, hname, _, hpath⟩ := h.path_cases line
  generalize hrest : renamedTokens line i.renamed? ++ ⟨.symbol ';', line⟩ :: ts = rest
  have htail : (i.tokens line).tail ++ ts = i.pathTokens line ++ rest := by
    rw [← hrest]
    simp [tokens]
  have hstatic : isWordAt "static" (i.pathTokens line ++ rest) = false := by
    rw [hus]
    simpa [isWordAt, current] using hfirst
  have hpoint : isSymbolAt '.' rest = false := by
    rw [← hrest]
    cases i.renamed? <;> rfl
  have hrenamed : isWordAt "as" rest = false ∧ i.renamed? = none ∧ ⟨.symbol ';', line⟩ :: ts = rest ∨
      isWordAt "as" rest = true ∧ ∃ a, i.renamed? = some a ∧
        readWord rest.tail = .ok (a, ⟨.symbol ';', line⟩ :: ts) := by
    rw [← hrest]
    cases i.renamed? with
    | none => exact .inl ⟨rfl, rfl, rfl⟩
    | some a => exact .inr ⟨rfl, a, rfl, rfl⟩
  have hskip : skipSemicolons (⟨.symbol ';', line⟩ :: ts) = ts := skipSemicolons_of_ne hts
  rw [htail]
  -- the path is a name, or a name with a point and an asterisk after it
  rcases hpath with ⟨hpath, htokens⟩ | ⟨hpath, htokens⟩
  · have hends : EndsName rest := by
      rw [EndsName]
      simpa [isSymbolAt] using hpoint
    have hread := readDottedName_name line hname (readSegments_ends hends)
    rw [← htokens] at hread
    rw [readImport_parts hstatic hread (.inl ⟨hpoint, hpath, rfl⟩) hrenamed, hskip]
  · have hread := readDottedName_name line hname
      (show readSegments (⟨.symbol '.', line⟩ :: ⟨.symbol '*', line⟩ :: rest) = ("", _) from rfl)
    have hjoin : nameTokens line name ++ ⟨.symbol '.', line⟩ :: ⟨.symbol '*', line⟩ :: rest =
        i.pathTokens line ++ rest := by
      rw [htokens, List.append_assoc]
      rfl
    rw [hjoin] at hread
    rw [readImport_parts hstatic hread (.inr ⟨rfl, hpath, rfl⟩) hrenamed, hskip]

theorem readImports_tokens {is : List Import} (h : ∀ i ∈ is, i.IsWritable) (line : Nat) {ts : List Placed}
    (hts : isSymbolAt ';' ts = false) (hend : isWordAt "import" ts = false) {fuel : Nat}
    (hfuel : is.length ≤ fuel) (done : List Import) :
    readImports fuel done (linesTokens tokens line is ++ ts) = .ok (done ++ is, ts) := by
  induction is generalizing line fuel done with
  | nil =>
    rw [List.append_nil, linesTokens, List.nil_append]
    cases fuel with
    | zero => rfl
    | succ fuel => rw [readImports, hend, if_neg Bool.false_ne_true]
  | cons i is ih =>
    obtain ⟨hi, his⟩ := List.forall_mem_cons.1 h
    obtain ⟨fuel, rfl⟩ := Nat.exists_eq_add_of_le' (Nat.le_trans (Nat.succ_le_succ (Nat.zero_le _)) hfuel)
    have hnext : isSymbolAt ';' (linesTokens tokens (line + 1) is ++ ts) = false := by
      cases is with
      | nil => exact hts
      | cons j js => rfl
    have hword : isWordAt "import" (linesTokens tokens line (i :: is) ++ ts) = true := rfl
    have htail : (linesTokens tokens line (i :: is) ++ ts).tail =
        (i.tokens line).tail ++ (linesTokens tokens (line + 1) is ++ ts) := by
      rw [linesTokens, List.append_assoc]
      rfl
    rw [readImports, if_pos hword, htail, readImport_tokens hi line hnext, ok_bind]
    dsimp only
    rw [ih his (line + 1) (by simpa using hfuel), List.append_assoc, List.singleton_append]

end Import

end UpdaterBootstrap
