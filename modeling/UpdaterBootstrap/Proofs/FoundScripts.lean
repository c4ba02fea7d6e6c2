import UpdaterBootstrap.Generation.Run
import UpdaterBootstrap.Proofs.Saving

/-!
# The scripts of a directory and where their documents go

A script that is found has names below the source directory, and its document has the same names
below the target directory but for the extension. So documents of different scripts have different
places (`location_injective`), none of them in the source directory if the two are apart.
-/

namespace UpdaterBootstrap

def FileTree.HasFileNames (t : FileTree) (root : Location) : Prop :=
  ∀ f ∈ t.filesFrom root, ∀ n ∈ f.1, IsFileName n

instance (t : FileTree) (root : Location) : Decidable (t.HasFileNames root) :=
  inferInstanceAs (Decidable (∀ f ∈ t.filesFrom root, ∀ n ∈ f.1, IsFileName n))

/-! ## Finding -/

namespace FileTree

theorem mem_filesFrom {t : FileTree} {root : Location} {f : List String × ByteArray} :
    f ∈ t.filesFrom root ↔ (root ++ f.1, FileEntry.file f.2) ∈ t.entries.entries := by
  rw [filesFrom_eq, List.mem_filterMap]
  constructor
  · rintro ⟨e, he, h⟩
    rwa [← listed?_eq_some.1 h]
  · intro h
    exact ⟨_, h, listed?_eq_some.2 rfl⟩

theorem pairwise_filesFrom (t : FileTree) (root : Location) :
    (t.filesFrom root).Pairwise fun f g => root ++ f.1 < root ++ g.1 := by
  rw [filesFrom_eq]
  refine t.entries.ascending.filterMap _ fun e e' hlt f hf f' hf' => ?_
  rwa [listed?_eq_some.1 hf, listed?_eq_some.1 hf'] at hlt

end FileTree

structure FoundScript.IsAt (s : FoundScript) (t : FileTree) (root ext : String) (names : List String) :
    Prop where
  ne_nil : names ≠ []
  fileNames : ∀ n ∈ names, IsFileName n
  extension : names.getLast?.bind Path.extension? = some (bareExtension ext)
  path : s.path = Path.joinNames root names
  location : s.location = t.place root ++ names
  file : ∃ bytes, t.entry? s.location = some (.file bytes)

theorem discoverScripts_eq {t : FileTree} {root : String} (h : t.isDirectory root = true) (ext : String) :
    discoverScripts t root ext = ((t.filesFrom (t.place root)).map fun f =>
      (⟨Path.joinNames root f.1, t.place root ++ f.1⟩ : FoundScript)).filter fun s =>
        hasExtension (bareExtension ext) s.location := by
  unfold discoverScripts
  rw [(FileTree.locate_of_isDirectory h).1]

section
variable {t : FileTree} {root ext : String} (hdirectory : t.isDirectory root = true)
include hdirectory

theorem exists_isAt_of_mem (hnames : t.HasFileNames (t.place root)) {s : FoundScript}
    (hs : s ∈ discoverScripts t root ext) : ∃ names, s.IsAt t root ext names := by
  rw [discoverScripts_eq hdirectory, List.mem_filter, List.mem_map] at hs
  obtain ⟨⟨⟨names, bytes⟩, hf, rfl⟩, hext⟩ := hs
  unfold hasExtension at hext
  have hext := beq_iff_eq.1 hext
  have hlast := hext
  dsimp only at hlast
  have hentry := FileTree.mem_filesFrom.1 hf
  have hlocation : t.place root ++ names ≠ [] := by
    intro h
    rw [h] at hlast
    cases hlast
  have hfile : t.entry? (t.place root ++ names) = some (.file bytes) := by
    rw [FileTree.entry?_of_ne_nil hlocation]
    exact AscendingMap.mem_entries_iff.1 hentry
  have hne : names ≠ [] := by
    rintro rfl
    rw [List.append_nil, (FileTree.locate_of_isDirectory hdirectory).2] at hfile
    cases hfile
  obtain ⟨name, hname⟩ := Option.ne_none_iff_exists'.1 (mt List.getLast?_eq_none_iff.1 hne)
  rw [List.getLast?_append, hname, Option.some_or, ← hname] at hlast
  exact ⟨names, hne, hnames _ hf, hlast, rfl, rfl, bytes, hfile⟩

theorem discoverScripts_congr {t' : FileTree} (hextends : t.Extends t')
    (hfiles : t'.filesFrom (t.place root) = t.filesFrom (t.place root)) :
    discoverScripts t' root ext = discoverScripts t root ext := by
  rw [discoverScripts_eq hdirectory, discoverScripts_eq (hextends.isDirectory hdirectory),
    FileTree.place_congr hextends.current, hfiles]

theorem pairwise_discoverScripts :
    (discoverScripts t root ext).Pairwise fun s s' => s.location < s'.location := by
  rw [discoverScripts_eq hdirectory]
  refine List.Pairwise.filter _ (List.pairwise_map.2 ?_)
  exact t.pairwise_filesFrom _

end

theorem ne_empty_of_isDirectory {t : FileTree} {root : String} (h : t.isDirectory root = true) : root ≠ "" :=
  (FileTree.locate_eq_ok.1 (FileTree.locate_of_isDirectory h).1).1

/-! ## Documents -/

section
variable {s : FoundScript} {t : FileTree} {root ext : String} {names : List String}
  (hs : s.IsAt t root ext names)
include hs

theorem FoundScript.IsAt.documentName? (hroot : root ≠ "") :
    Path.documentName? root s.path = some ("/".intercalate (Path.withExtension "yaml" names)) := by
  rw [hs.path, Path.documentName?_joinNames hroot hs.ne_nil hs.fileNames]

theorem FoundScript.IsAt.documentPlace (target : String) :
    t.place (Path.join target ("/".intercalate (Path.withExtension "yaml" names))) =
      t.place target ++ Path.withExtension "yaml" names :=
  FileTree.place_join_names t target (Path.withExtension_ne_nil hs.ne_nil)
    (Path.isFileName_withExtension hs.fileNames)

theorem FoundScript.IsAt.location_injective {s' : FoundScript} {names' : List String}
    (hs' : s'.IsAt t root ext names')
    (h : Path.withExtension "yaml" names = Path.withExtension "yaml" names') :
    s.location = s'.location := by
  have hext := hs.extension.trans hs'.extension.symm
  rw [hs.location, hs'.location, Path.withExtension_injective hs.ne_nil hs'.ne_nil hext h]

end

/-! ## The manifest among them -/

theorem isFileName_manifestName : IsFileName manifestName := by decide

/-- The one document with the name of the manifest is that of a script with this stem, directly in
the source directory. -/
theorem withExtension_eq_manifestName {names : List String} :
    Path.withExtension "yaml" names = [manifestName] ↔ ∃ name, names = [name] ∧
      Path.stem name = "hcm-actions" := by
  have hmanifest : manifestName = "hcm-actions" ++ "." ++ "yaml" := by decide
  constructor
  · intro h
    match names, h with
    | [name], h =>
      have h := List.singleton_inj.1 h
      rw [hmanifest] at h
      exact ⟨name, rfl, (String.append_left_inj _).1 ((String.append_left_inj _).1 h)⟩
    | name :: next :: names, h =>
      exact absurd (List.cons.inj h).2 (Path.withExtension_ne_nil (List.cons_ne_nil _ _))
  · rintro ⟨name, rfl, h⟩
    rw [hmanifest, ← h]
    rfl

namespace GenerateOptions

def sourceManifest (o : GenerateOptions) : String :=
  Path.join o.sourceDir manifestName

def targetManifest (o : GenerateOptions) : String :=
  Path.join o.targetDir manifestName

def IsApart (o : GenerateOptions) (t : FileTree) : Prop :=
  ¬t.place o.sourceDir <+: t.place o.targetDir ∧ ¬t.place o.targetDir <+: t.place o.sourceDir

instance (o : GenerateOptions) (t : FileTree) : Decidable (o.IsApart t) :=
  inferInstanceAs (Decidable (_ ∧ _))

theorem place_targetManifest (o : GenerateOptions) (t : FileTree) :
    t.place o.targetManifest = t.place o.targetDir ++ [manifestName] :=
  t.place_join_name o.targetDir isFileName_manifestName

theorem IsApart.not_isPrefix {o : GenerateOptions} {t : FileTree} (h : o.IsApart t) (names : List String) :
    ¬t.place o.sourceDir <+: t.place o.targetDir ++ names := by
  intro hprefix
  rcases List.prefix_or_prefix_of_prefix hprefix (List.prefix_append _ _) with h' | h'
  · exact h.1 h'
  · exact h.2 h'

end GenerateOptions

end UpdaterBootstrap
