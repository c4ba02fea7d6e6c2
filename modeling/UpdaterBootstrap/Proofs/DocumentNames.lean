import Mathlib.Data.List.TakeWhile
import UpdaterBootstrap.Proofs.FoundScripts
import UpdaterBootstrap.Proofs.RelativePath

/-!
# The names of documents

The extension of a script is what its last name has after its last point. The name of its document
comes about by a search in the text of the whole path, for the last slash and for the last point
after it; what is cut off there is the extension (`removeExtension_append`), wherever else points
stand. So two scripts with one extension, or with none, have different documents
(`documentName?_distinct`).
-/

namespace UpdaterBootstrap

namespace Path

/-! ## The search in the text -/

def lastPlace? (c : Char) : List Char → Option Nat
  | [] => none
  | d :: cs =>
    match lastPlace? c cs with
    | some i => some (i + 1)
    | none => if d = c then some 0 else none

def removeExtension (path : String) : String :=
  let nameStart := (lastPlace? '/' path.toList).elim 0 (· + 1)
  match lastPlace? '.' (path.toList.drop nameStart) with
  | some 0 => path
  | none => path
  | some dot => .ofList (path.toList.take (nameStart + dot))

theorem lastPlace?_of_not_mem {c : Char} {cs : List Char} (h : c ∉ cs) : lastPlace? c cs = none := by
  induction cs with
  | nil => rfl
  | cons d cs ih =>
    rw [List.mem_cons, not_or] at h
    rw [lastPlace?, ih h.2]
    exact if_neg (Ne.symm h.1)

theorem lastPlace?_append {c : Char} (before : List Char) {after : List Char} (h : c ∉ after) :
    lastPlace? c (before ++ c :: after) = some before.length := by
  induction before with
  | nil =>
    rw [List.nil_append, lastPlace?, lastPlace?_of_not_mem h]
    exact if_pos rfl
  | cons d before ih => rw [List.cons_append, lastPlace?, ih, List.length_cons]

theorem exists_last {c : Char} {cs : List Char} (h : c ∈ cs) :
    ∃ before after, cs = before ++ c :: after ∧ c ∉ after := by
  obtain ⟨after, before, hsplit, hafter⟩ := List.eq_append_cons_of_mem (List.mem_reverse.2 h)
  refine ⟨before.reverse, after.reverse, ?_, mt List.mem_reverse.1 hafter⟩
  rw [← List.reverse_reverse cs, hsplit, List.reverse_append, List.reverse_cons, List.append_assoc]
  rfl

/-! ## The name without its extension -/

theorem splitExtension_of_not_mem {name : String} (h : '.' ∉ name.toList) :
    splitExtension name = (name, none) := by
  have hnone : name.toList.reverse.dropWhile (· != '.') = [] :=
    List.dropWhile_eq_nil_iff.2 (bne_of_not_mem (mt List.mem_reverse.1 h))
  unfold splitExtension
  dsimp only
  rw [hnone]

theorem splitExtension_append {before after : List Char} (h : '.' ∉ after) :
    splitExtension (.ofList (before ++ '.' :: after)) =
      if before = [] then (.ofList (before ++ '.' :: after), none)
        else (.ofList before, some (.ofList after)) := by
  have hafter : ∀ c ∈ after.reverse, (c != '.') = true := bne_of_not_mem (mt List.mem_reverse.1 h)
  have hreverse : (String.ofList (before ++ '.' :: after)).toList.reverse = after.reverse ++
      '.' :: before.reverse := by
    rw [String.toList_ofList, List.reverse_append, List.reverse_cons, List.append_assoc]
    rfl
  unfold splitExtension
  dsimp only
  rw [hreverse, List.takeWhile_append_of_pos hafter, List.dropWhile_append_of_pos hafter]
  rw [List.takeWhile_cons_of_neg (by simp), List.dropWhile_cons_of_neg (by simp), List.append_nil,
    List.reverse_reverse]
  -- the characters before the point stand in reverse, and one must be there
  cases hbefore : before.reverse with
  | nil => rw [if_pos (List.reverse_eq_nil_iff.1 hbefore)]
  | cons c cs =>
    have hne : before ≠ [] := fun h => by
      rw [h] at hbefore
      cases hbefore
    rw [if_neg hne]
    dsimp only
    rw [← hbefore, List.reverse_reverse]

/-- What is cut off the text of a path is the extension of its last name, with the point. -/
theorem removeExtension_append {directory : List Char}
    (hdirectory : directory = [] ∨ ∃ cs, directory = cs ++ ['/'])
    {name : String} (hname : '/' ∉ name.toList) :
    removeExtension (.ofList (directory ++ name.toList)) = .ofList (directory ++ (stem name).toList) := by
  have hstart : (lastPlace? '/' (directory ++ name.toList)).elim 0 (· + 1) = directory.length := by
    rcases hdirectory with rfl | ⟨cs, rfl⟩
    · rw [List.nil_append, lastPlace?_of_not_mem hname]
      rfl
    · rw [List.append_assoc, List.singleton_append, lastPlace?_append cs hname, List.length_append]
      rfl
  unfold removeExtension stem
  dsimp only
  rw [String.toList_ofList, hstart, List.drop_left]
  by_cases hpoint : '.' ∈ name.toList
  · obtain ⟨before, after, hsplit, hafter⟩ := exists_last hpoint
    have hlast : name = .ofList (before ++ '.' :: after) := by rw [← hsplit, String.ofList_toList]
    rw [hsplit, lastPlace?_append before hafter, hlast, splitExtension_append hafter]
    cases before with
    | nil =>
      rw [if_pos rfl, String.toList_ofList]
      rfl
    | cons c cs =>
      have htake : (directory ++ (c :: cs ++ '.' :: after)).take (directory.length + (c :: cs).length) =
          directory ++ c :: cs := by
        rw [← List.append_assoc, ← List.length_append, List.take_left]
      rw [if_neg (List.cons_ne_nil c cs), String.toList_ofList]
      exact congrArg String.ofList htake
  · rw [lastPlace?_of_not_mem hpoint, splitExtension_of_not_mem hpoint]

theorem exists_directory (names : List String) :
    ∃ directory, (directory = [] ∨ ∃ cs, directory = cs ++ ['/']) ∧
    ∀ name, "/".intercalate (names ++ [name]) = .ofList (directory ++ name.toList) := by
  by_cases hne : names = []
  · refine ⟨[], .inl rfl, fun name => ?_⟩
    rw [hne, List.nil_append, List.nil_append, String.intercalate_singleton, String.ofList_toList]
  · refine ⟨("/".intercalate names).toList ++ ['/'], .inr ⟨_, rfl⟩, fun name => ?_⟩
    rw [String.intercalate_append_of_ne_nil hne (List.cons_ne_nil _ _), String.intercalate_singleton,
      ← String.toList_inj, String.toList_ofList, String.toList_append, String.toList_append]
    rfl

/-- The extension is replaced in the text as it is in the last name. -/
theorem intercalate_withExtension {names : List String} (hne : names ≠ [])
    (h : ∀ n ∈ names, '/' ∉ n.toList) :
    "/".intercalate (withExtension "yaml" names) = removeExtension ("/".intercalate names) ++ "." ++
      "yaml" := by
  obtain ⟨before, name, rfl⟩ := names.eq_nil_or_concat'.resolve_left hne
  obtain ⟨directory, hdirectory, hjoin⟩ := exists_directory before
  have hname := h name (List.mem_append_right _ (List.mem_singleton_self name))
  rw [withExtension_append, hjoin, hjoin, removeExtension_append hdirectory hname, ← String.toList_inj]
  simp only [String.toList_append, String.toList_ofList, List.append_assoc]

theorem documentName?_eq (base file : String) :
    documentName? base file = (relative? base file).map fun r => removeExtension r ++ "." ++ "yaml" := by
  unfold documentName? relative?
  cases hnames : namesBelow? base file with
  | none => rfl
  | some names =>
    obtain ⟨rest, hrest, rfl, hne⟩ := namesBelow?_eq_some_iff.1 hnames
    rw [Option.map_some, Option.map_some, Option.map_some,
      intercalate_withExtension hne fun _ hname => (isFileName_of_mem_rest hrest hname).2.2.2]

/-! ## Different documents -/

def fileExtension? (path : String) : Option String :=
  ((parts path).getLast?.bind PathPart.name?).bind extension?

theorem fileExtension?_of_names {base file : String} {names : List String} (hne : names ≠ [])
    (h : parts file = parts base ++ names.map .name) :
    fileExtension? file = names.getLast?.bind extension? := by
  obtain ⟨before, name, rfl⟩ := names.eq_nil_or_concat'.resolve_left hne
  unfold fileExtension?
  rw [h, List.map_append, List.map_singleton, ← List.append_assoc, List.getLast?_concat, List.getLast?_concat]
  rfl

/-- The document of a script with some names: a path without empty pieces and dots that leads into
the directory of the script, with the extension in the text of the script's path replaced. -/
structure IsDocumentOf (names : List String) (document : String) : Prop where
  relative : isAbsolute document = false
  fileNames : ∀ piece ∈ pieces document, IsFileName piece
  directory : (pieces document).dropLast = names.dropLast
  text : document = removeExtension ("/".intercalate names) ++ "." ++ "yaml"

theorem isFileName_of_names {base file : String} {names : List String}
    (h : parts file = parts base ++ names.map .name) :
    ∀ n ∈ names, IsFileName n := by
  intro n hn
  refine isFileName_of_mem_rest h ?_
  rwa [filterMap_name?]

theorem isDocumentOf {base file : String} {names : List String} (hne : names ≠ [])
    (hfile : parts file = parts base ++ names.map .name) :
    IsDocumentOf names ("/".intercalate (withExtension "yaml" names)) := by
  have hnames := isFileName_of_names hfile
  have hdocument := isFileName_withExtension hnames
  have hpieces := pieces_intercalate (withExtension_ne_nil hne) fun n hn => (hdocument n hn).2.2.2
  refine ⟨isAbsolute_intercalate hdocument, ?_, ?_,
    intercalate_withExtension hne fun n hn => (hnames n hn).2.2.2⟩
  · rw [hpieces]
    exact hdocument
  · rw [hpieces]
    obtain ⟨before, name, rfl⟩ := names.eq_nil_or_concat'.resolve_left hne
    rw [withExtension_append, List.dropLast_concat, List.dropLast_concat]

/-- Two files below a directory that have the same extension, or none, have different documents. -/
theorem documentName?_distinct {base file file' : String} {names names' : List String} (hne : names ≠ [])
    (hne' : names' ≠ []) (hfile : parts file = parts base ++ names.map .name)
    (hfile' : parts file' = parts base ++ names'.map .name)
    (hext : fileExtension? file = fileExtension? file') (hdifferent : parts file ≠ parts file') :
    ∃ document document', documentName? base file = some document ∧
      documentName? base file' = some document' ∧
      document ≠ document' ∧ IsDocumentOf names document ∧ IsDocumentOf names' document' := by
  refine ⟨_, _, documentName?_of_names hne hfile, documentName?_of_names hne' hfile',
    fun heq => hdifferent ?_, isDocumentOf hne hfile, isDocumentOf hne' hfile'⟩
  rw [fileExtension?_of_names hne hfile, fileExtension?_of_names hne' hfile'] at hext
  have hdocument := isFileName_withExtension (isFileName_of_names hfile)
  have hdocument' := isFileName_withExtension (isFileName_of_names hfile')
  have hnames : withExtension "yaml" names = withExtension "yaml" names' := by
    rw [← pieces_intercalate (withExtension_ne_nil hne) fun n hn => (hdocument n hn).2.2.2, heq,
      pieces_intercalate (withExtension_ne_nil hne') fun n hn => (hdocument' n hn).2.2.2]
  rw [hfile, hfile', withExtension_injective hne hne' hext hnames]

theorem documentName?_distinct_points :
    fileExtension? "/src/v1.2/.a.groovy" = fileExtension? "/src/v1.2/a..groovy" ∧
    ∃ document document', documentName? "/src" "/src/v1.2/.a.groovy" = some document ∧
      documentName? "/src" "/src/v1.2/a..groovy" = some document' ∧ document ≠ document' ∧
      IsDocumentOf ["v1.2", ".a.groovy"] document ∧ IsDocumentOf ["v1.2", "a..groovy"] document' :=
  ⟨by decide +kernel, documentName?_distinct (List.cons_ne_nil _ _) (List.cons_ne_nil _ _) (by decide +kernel)
    (by decide +kernel) (by decide +kernel) (by decide +kernel)⟩

end Path

/-- The scripts that are found with an extension have it. -/
theorem fileExtension?_of_mem_discoverScripts {s : FoundScript} {t : FileTree} {root ext : String}
    (hdirectory : t.isDirectory root = true) (hnames : t.HasFileNames (t.place root))
    (hs : s ∈ discoverScripts t root ext) : Path.fileExtension? s.path = some (bareExtension ext) := by
  obtain ⟨names, hs⟩ := exists_isAt_of_mem hdirectory hnames hs
  have hparts : Path.parts s.path = Path.parts root ++ names.map .name := by
    rw [hs.path, Path.parts_joinNames (ne_empty_of_isDirectory hdirectory) hs.fileNames]
  rw [Path.fileExtension?_of_names hs.ne_nil hparts, hs.extension]

end UpdaterBootstrap
