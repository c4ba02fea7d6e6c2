import UpdaterBootstrap.Proofs.NormalLines
import UpdaterBootstrap.Proofs.Pieces
import UpdaterBootstrap.Proofs.UnitText
import UpdaterBootstrap.Proofs.WrittenArguments

/-!
# The text of a written script

A script with both annotations, each on a line, and an empty class. Its lines are normal, the scan
finds the annotations as they are written, and the class stays when they are cut out.
-/

namespace UpdaterBootstrap

/-! ## The script -/

def BootstrapInfo.arguments (b : BootstrapInfo) : WrittenArguments :=
  [("contentroot", .text b.contentRoot.name), ("reload", .boolean b.reload), ("version", .text b.version),
    ("exclude", .boolean b.exclude)]

def UpdaterInfo.arguments (u : UpdaterInfo) : WrittenArguments :=
  [("name", .text u.name), ("description", .text u.description), ("path", .text u.path),
    ("xpath", .text u.xpath), ("parameters", .text u.parameters), ("batchSize", .integer u.batchSize),
      ("throttle", .integer u.throttle),
    ("dryRun", .boolean u.dryRun)]

def annotationChars (style : QuoteStyle) (kind : AnnotationKind) (as : WrittenArguments) : List Char :=
  '@' :: (kind.simpleName.toList ++ argumentText style as)

def classChars (name : String) : List Char :=
  "class".toList ++ (' ' :: (name.toList ++ " \x7b\n\x7d\n".toList))

def scriptChars (style : QuoteStyle) (b u : WrittenArguments) (name : String) : List Char :=
  annotationChars style .bootstrap b ++ '\n' :: (annotationChars style .updater u ++ '\n' :: classChars name)

/-- Both annotations, each on a line, and an empty class. The sequence is left to its default. -/
def writeScript (style : QuoteStyle) (b : BootstrapInfo) (u : UpdaterInfo) (name : String) : String :=
  .ofList (scriptChars style b.arguments u.arguments name)

example : writeScript ⟨'"', false⟩ ⟨.queue, true, 99999.0, "1\n0", false⟩
  ⟨"$a", "", "", "", "", 10, -5, true⟩ "Fix" =
    "@Bootstrap(contentroot = \"queue\", reload = true, version = \"1\\n0\", exclude = false)\n" ++
      "@Updater(name = \"\\$a\", description = \"\", path = \"\", xpath = \"\", parameters = \"\", " ++
      "batchSize = 10, throttle = -5, dryRun = true)\nclass Fix \x7b\n\x7d\n" := by
  decide +kernel

theorem BootstrapInfo.isWritable_arguments (b : BootstrapInfo) : b.arguments.IsWritable := by
  intro a ha
  simp only [BootstrapInfo.arguments, List.mem_cons, List.not_mem_nil, or_false] at ha
  rcases ha with rfl | rfl | rfl | rfl <;> exact ⟨by dsimp only; decide +kernel, trivial⟩

theorem UpdaterInfo.isWritable_arguments {u : UpdaterInfo} (hb : Int64.minValue < u.batchSize)
    (ht : Int64.minValue < u.throttle) : u.arguments.IsWritable := by
  intro a ha
  simp only [UpdaterInfo.arguments, List.mem_cons, List.not_mem_nil, or_false] at ha
  rcases ha with rfl | rfl | rfl | rfl | rfl | rfl | rfl | rfl <;>
    refine ⟨by dsimp only; decide +kernel, ?_⟩ <;> first | exact hb | exact ht | trivial

theorem AnnotationKind.isWord_simpleName (k : AnnotationKind) : isWord k.simpleName.toList = true := by
  cases k <;> decide

/-! ## Annotations -/

section
variable {style : QuoteStyle} (hq : isQuote style.quote = true) (kind : AnnotationKind)
  {as : WrittenArguments}
  (has : as.IsWritable)
include hq has

theorem argumentText_oneLine : ∀ c ∈ argumentText style as, c ≠ '\n' ∧ c ≠ '\r' := by
  refine List.forall_mem_cons.2 ⟨by decide, fun c hc => ?_⟩
  rcases List.mem_append.1 hc with hc | hc
  · exact (inline_arguments hq 1 has []).oneLine c hc
  · rw [List.mem_singleton.1 hc]
    decide

theorem annotationChars_oneLine : ∀ c ∈ annotationChars style kind as, c ≠ '\n' ∧ c ≠ '\r' := by
  refine List.forall_mem_cons.2 ⟨by decide, fun c hc => ?_⟩
  rcases List.mem_append.1 hc with hc | hc
  · have := isIdentPart_of_isWord kind.isWord_simpleName c hc
    exact ⟨ne_of_class this (by decide), ne_of_class this (by decide)⟩
  · exact argumentText_oneLine hq has c hc

omit hq has in
theorem annotationChars_endsSolid (as : WrittenArguments) : EndsSolid (annotationChars style kind as) := by
  have : (annotationChars style kind as).getLast? = some ')' := by
    simp [annotationChars, argumentText, List.getLast?_cons, List.getLast?_append]
  intro c hc
  rw [this] at hc
  rw [← Option.some.inj hc]
  decide

theorem piecesFrom_annotationChars (rest : List Char) :
    piecesFrom 0 false (markedFrom .code (annotationChars style kind as ++ '\n' :: rest)) =
      .occurrence kind.simpleName.toList (argumentText style as) :: .plain '\n' ::
        piecesFrom 0 false (markedFrom .code rest) := by
  have harguments := (enclosed_argumentText hq has).argumentList_eq ('\n' :: rest)
  have hname : dottedName (kind.simpleName.toList ++ (argumentText style as ++ '\n' :: rest)) =
      kind.simpleName.toList :=
    dottedName_word kind.isWord_simpleName (endsWord_cons (by decide) _) (by simp [argumentText])
  have hproper : kind.simpleName.toList ≠ [] ∧ kind.simpleName.toList ≠ "interface".toList := by
    cases kind <;> decide
  have hfeed : piecesFrom 0 false (markedFrom .code ('\n' :: rest)) =
      .plain '\n' :: piecesFrom 0 false (markedFrom .code rest) := by
    rw [markedFrom_cons, step_inert (by decide), piecesFrom, annotation?_of_ne (by decide)]
    rfl
  rw [annotationChars, List.cons_append, List.append_assoc,
    piecesFrom_captured ⟨hname, hproper, by rw [List.drop_left]; exact harguments⟩, hfeed]

end

/-! ## The scan of the script -/

theorem classChars_eq (name : String) :
    classChars name = "class".toList ++ (' ' :: (name.toList ++ [' ', '\x7b'])) ++
      '\n' :: (['\x7d'] ++ '\n' :: []) := by
  simp [classChars]

theorem occurrencesFrom_plain (offset : Nat) (cs : List Char) :
    occurrencesFrom offset (cs.map .plain) = [] := by
  induction cs generalizing offset with
  | nil => rfl
  | cons c cs ih => exact ih _

theorem cuts_occurrence (style : QuoteStyle) (kind : AnnotationKind) (as : WrittenArguments) :
    (Piece.occurrence kind.simpleName.toList (argumentText style as)).cuts =
      (annotationChars style kind as).map (·, true) := by
  have : isRecognized kind.simpleName.toList = true := by cases kind <;> decide
  simp [Piece.cuts, this, Piece.text, annotationChars]

theorem cuts_plain (cs : List Char) : (cs.map Piece.plain).flatMap Piece.cuts = cs.map (·, false) := by
  induction cs with
  | nil => rfl
  | cons c cs ih => exact congrArg ((c, false) :: ·) ih

theorem rest_cutLine (keepLineCount : Bool) {a : List Char} (ha : a ≠ []) :
    CutLine.rest keepLineCount ⟨a.map (·, true), some false⟩ = if keepLineCount then ['\n'] else [] := by
  have hkept : CutLine.kept ⟨a.map (·, true), some false⟩ = [] := by simp [CutLine.kept]
  have htouched : CutLine.isTouched ⟨a.map (·, true), some false⟩ = true := by
    obtain ⟨c, a, rfl⟩ := List.exists_cons_of_ne_nil ha
    simp [CutLine.isTouched]
  simp [CutLine.rest, htouched, hkept, CutLine.feedText]

section
variable {style : QuoteStyle} (hq : isQuote style.quote = true) {b u : WrittenArguments} (hb : b.IsWritable)
  (hu : u.IsWritable) {name : String} (hname : isWord name.toList = true)

section
include hname

theorem mem_className {c : Char} (h : c ∈ name.toList) (d : Char) (hd : isIdentPart d = false) : c ≠ d :=
  ne_of_class (isIdentPart_of_isWord hname c h) hd

theorem mem_classLine :
    ∀ c ∈ "class".toList ++ (' ' :: (name.toList ++ [' ', '\x7b'])),
      c ≠ '\n' ∧ c ≠ '\r' ∧ c ≠ '@' := by
  intro c hc
  simp only [List.mem_append, List.mem_cons, List.not_mem_nil, or_false] at hc
  rcases hc with hc | rfl | hc | rfl | rfl
  · have hkeyword : ∀ c ∈ "class".toList, c ≠ '\n' ∧ c ≠ '\r' ∧ c ≠ '@' :=
      forall_mem_of_all (by decide)
    exact hkeyword c hc
  · decide
  · exact ⟨mem_className hname hc _ (by decide), mem_className hname hc _ (by decide),
      mem_className hname hc _ (by decide)⟩
  · decide
  · decide

theorem mem_classChars : ∀ c ∈ classChars name, c ≠ '\r' ∧ c ≠ '@' := by
  rw [classChars_eq]
  intro c hc
  rcases List.mem_append.1 hc with hc | hc
  · exact (mem_classLine hname c hc).2
  · simp only [List.mem_cons, List.mem_append, List.not_mem_nil, or_false] at hc
    rcases hc with rfl | rfl | rfl <;> decide

end

include hq hb hu hname

/-- Nothing in the script is changed when its line ends are unified and its lines trimmed. -/
theorem normalizeLines_scriptChars :
    normalizeLines (.ofList (scriptChars style b u name)) = .ofList (scriptChars style b u name) := by
  have hreturn : ∀ c ∈ scriptChars style b u name, c ≠ '\r' := by
    intro c hc
    simp only [scriptChars, List.mem_append, List.mem_cons] at hc
    rcases hc with hc | rfl | hc | rfl | hc
    · exact (annotationChars_oneLine hq .bootstrap hb c hc).2
    · decide
    · exact (annotationChars_oneLine hq .updater hu c hc).2
    · decide
    · exact (mem_classChars hname c hc).1
  have hsolid : EndsSolid ("class".toList ++ (' ' :: (name.toList ++ [' ', '\x7b']))) := by
    intro c hc
    have : ("class".toList ++ (' ' :: (name.toList ++ [' ', '\x7b']))).getLast? = some '\x7b' := by
      simp [List.getLast?_append, List.getLast?_cons]
    rw [this] at hc
    rw [← Option.some.inj hc]
    decide
  have hbrace : EndsSolid ['\x7d'] := fun c hc => by rw [← Option.some.inj hc]; decide
  rw [normalizeLines, String.toList_ofList, unifyLineEnds_eq hreturn, scriptChars,
    dropTrailingBlanks_solid (fun c hc => (annotationChars_oneLine hq .bootstrap hb c hc).1)
      (annotationChars_endsSolid .bootstrap b), dropTrailingBlanks_feed,
    dropTrailingBlanks_solid (fun c hc => (annotationChars_oneLine hq .updater hu c hc).1)
      (annotationChars_endsSolid .updater u), dropTrailingBlanks_feed, classChars_eq,
    dropTrailingBlanks_solid (fun c hc => (mem_classLine hname c hc).1) hsolid, dropTrailingBlanks_feed,
    dropTrailingBlanks_solid (forall_mem_of_all (by decide)) hbrace, dropTrailingBlanks_feed]
  rfl

theorem pieces_scriptChars :
    pieces (scriptChars style b u name) =
      .occurrence "Bootstrap".toList (argumentText style b) :: .plain '\n' ::
        .occurrence "Updater".toList (argumentText style u) :: .plain '\n' :: (classChars name).map
          .plain := by
  have hstart : Reading.start (scriptChars style b u name) = .code := rfl
  rw [pieces, marked_eq, hstart, scriptChars, piecesFrom_annotationChars hq .bootstrap hb,
    piecesFrom_annotationChars hq .updater hu, piecesFrom_plain fun c hc => (mem_classChars hname c hc).2]
  rfl

theorem findAnnotations_scriptChars : ∃ offset,
    findAnnotations (.ofList (scriptChars style b u name)) =
      [⟨"Bootstrap", .ofList (argumentText style b), 0⟩,
        ⟨"Updater", .ofList (argumentText style u), offset⟩] := by
  rw [findAnnotations, String.toList_ofList, pieces_scriptChars hq hb hu hname]
  simp only [occurrencesFrom, occurrencesFrom_plain]
  exact ⟨_, rfl⟩

theorem stripChars_scriptChars (keepLineCount : Bool) :
    stripChars keepLineCount (scriptChars style b u name) =
      (if keepLineCount then ['\n', '\n'] else []) ++ classChars name := by
  have hcuts : cuts (scriptChars style b u name) =
      (annotationChars style .bootstrap b).map (·, true) ++ ('\n', false) ::
        ((annotationChars style .updater u).map (·, true) ++ ('\n', false) ::
          (classChars name).map (·, false)) := by
    have hbootstrap : (Piece.occurrence "Bootstrap".toList (argumentText style b)).cuts =
        (annotationChars style .bootstrap b).map (·, true) := cuts_occurrence style .bootstrap b
    have hupdater : (Piece.occurrence "Updater".toList (argumentText style u)).cuts =
        (annotationChars style .updater u).map (·, true) := cuts_occurrence style .updater u
    rw [cuts, pieces_scriptChars hq hb hu hname]
    simp only [List.flatMap_cons, cuts_plain, hbootstrap, hupdater]
    rfl
  have hfeeds (kind : AnnotationKind) {as : WrittenArguments} (has : as.IsWritable) :
      ∀ c ∈ (annotationChars style kind as).map (·, true), c.1 ≠ '\n' := by
    intro c hc
    obtain ⟨d, hd, rfl⟩ := List.mem_map.1 hc
    exact (annotationChars_oneLine hq kind has d hd).1
  rw [stripChars, hcuts, cutLines_line (hfeeds .bootstrap hb), cutLines_line (hfeeds .updater hu),
    List.flatMap_cons, List.flatMap_cons, flatMap_rest_uncut keepLineCount (by simp),
      rest_cutLine _ (by simp [annotationChars]),
    rest_cutLine _ (by simp [annotationChars]), List.map_map]
  have hid : (classChars name).map (Prod.fst ∘ fun c => (c, false)) = classChars name := List.map_id _
  rw [hid]
  cases keepLineCount <;> rfl

end

/-! ## The class of the script -/

theorem declaredName?_word {w rest : List Char} (hw : isWord w = true) (hr : EndsWord rest) :
    declaredName? (' ' :: (w ++ rest)) = some ([' '], w) := by
  have hblank : (w ++ rest).takeWhile isBlank = [] ∧ (w ++ rest).dropWhile isBlank = w ++ rest := by
    cases w with
    | nil => cases hw
    | cons c cs =>
      have : isBlank c = false := isBlank_of_isIdentPart (isIdentPart_of_isIdentStart (isWord_cons.1 hw).1)
      simp [this]
  have hne : w.isEmpty = false := by
    cases w with
    | nil => cases hw
    | cons c cs => rfl
  have hspace : isBlank ' ' = true := by decide
  simp [declaredName?, hspace, hblank, identifier_append hw hr, hne]

section
variable {name : String} (hname : isWord name.toList = true)
include hname

theorem classHeaderFrom_classChars (offset : Nat) :
    classHeaderFrom offset false (markedFrom .code (classChars name)) = some ⟨offset, " ", name⟩ := by
  have htext : classChars name =
      'c' :: ("lass".toList ++ (' ' :: (name.toList ++ " \x7b\n\x7d\n".toList))) := by
    simp [classChars]
  have hend : EndsWord " \x7b\n\x7d\n".toList := endsWord_cons (c := ' ') (by decide) _
  have hkeyword : ("lass".toList ++ (' ' :: (name.toList ++ " \x7b\n\x7d\n".toList))).take 4 =
      "lass".toList := rfl
  have hafter : ("lass".toList ++ (' ' :: (name.toList ++ " \x7b\n\x7d\n".toList))).drop 4 =
      ' ' :: (name.toList ++ " \x7b\n\x7d\n".toList) := rfl
  rw [htext, markedFrom_cons, step_inert (by decide), classHeaderFrom, List.map_take, List.map_drop,
    map_fst_markedFrom, hkeyword, hafter, declaredName?_word hname hend, if_pos (by decide)]
  simp

theorem findClassHeader_classChars (keepLineCount : Bool) : ∃ start,
    findClassHeader (.ofList ((if keepLineCount then ['\n', '\n'] else []) ++ classChars name)) =
      some ⟨start, " ", name⟩ := by
  have hfeed (offset : Nat) (inWord : Bool) (cs : List Char) :
      classHeaderFrom offset inWord (markedFrom .code ('\n' :: cs)) =
        classHeaderFrom (offset + 1) false (markedFrom .code cs) := by
    rw [markedFrom_cons, step_inert (by decide), classHeaderFrom]
    rfl
  rw [findClassHeader, String.toList_ofList]
  cases keepLineCount with
  | true =>
    have hstart : marked (['\n', '\n'] ++ classChars name) =
        markedFrom .code ('\n' :: '\n' :: classChars name) := rfl
    rw [if_pos rfl, hstart, hfeed, hfeed]
    exact ⟨_, classHeaderFrom_classChars hname _⟩
  | false =>
    have hstart : marked (classChars name) = markedFrom .code (classChars name) := rfl
    rw [if_neg Bool.false_ne_true, List.nil_append, hstart]
    exact ⟨_, classHeaderFrom_classChars hname _⟩

end

end UpdaterBootstrap
