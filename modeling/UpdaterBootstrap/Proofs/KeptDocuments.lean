import UpdaterBootstrap.Proofs.ManifestFiles

/-!
# Documents that stay

The documents of a generation have different places, and each holds its text in the end, with one
exception: the document of a script `hcm-actions` directly in the source directory has the path of
the manifest and is overwritten with it (`documents_of_generate`).
-/

namespace UpdaterBootstrap

/-! ## Places -/

section
variable {o : GenerateOptions} {t : FileTree} (hfits : o.Fits t)
include hfits

theorem GenerateOptions.Fits.place_ne {s s' : FoundScript} (hs : s ∈ o.scripts t) (hs' : s' ∈ o.scripts t)
    (hlt : s.location < s'.location) {b b' : BuiltScript} (hb : o.built? t s = some b)
    (hb' : o.built? t s' = some b') :
    t.place (o.output b) ≠ t.place (o.output b') := by
  intro hplace
  obtain ⟨names, hnames⟩ := hfits.exists_isAt hs
  obtain ⟨names', hnames'⟩ := hfits.exists_isAt hs'
  rw [hfits.place_output hnames hb, hfits.place_output hnames' hb'] at hplace
  rw [hnames.location_injective hnames' (List.append_cancel_left hplace)] at hlt
  exact KeyOrder.irrefl s'.location hlt

theorem GenerateOptions.Fits.nodup_places : ((o.allBuilt t).map fun b => t.place (o.output b)).Nodup := by
  have hdistinct : (o.scripts t).Pairwise fun s s' => ∀ b ∈ o.built? t s, ∀ b' ∈ o.built? t s',
      t.place (o.output b) ≠ t.place (o.output b') := by
    refine (pairwise_discoverScripts hfits.directory).imp_of_mem fun hs hs' hlt b hb b' hb' => ?_
    exact hfits.place_ne hs hs' hlt hb hb'
  exact List.pairwise_map.2 (List.pairwise_filterMap.2 hdistinct)

/-- A document has the place of the manifest only if it has its path. -/
theorem GenerateOptions.Fits.place_eq_iff {s : FoundScript} (hs : s ∈ o.scripts t) {b : BuiltScript}
    (hb : o.built? t s = some b) :
    (t.place (o.output b) = t.place o.targetManifest ↔ o.output b = o.targetManifest) ∧
    (o.output b = o.targetManifest ↔
      ∃ name, s.location = t.place o.sourceDir ++ [name] ∧ Path.stem name = "hcm-actions") := by
  obtain ⟨names, hnames⟩ := hfits.exists_isAt hs
  have hplace : t.place (o.output b) = t.place o.targetManifest ↔
      Path.withExtension "yaml" names = [manifestName] := by
    rw [hfits.place_output hnames hb, o.place_targetManifest, List.append_cancel_left_eq]
  have houtput : Path.withExtension "yaml" names = [manifestName] → o.output b = o.targetManifest := by
    intro h
    obtain ⟨m, -, -, rfl⟩ :=
      (GenerateOptions.built?_eq_some hnames (ne_empty_of_isDirectory hfits.directory)).1 hb
    unfold GenerateOptions.output GenerateOptions.targetManifest
    dsimp only
    rw [h, String.intercalate_singleton]
  have hpath : t.place (o.output b) = t.place o.targetManifest ↔ o.output b = o.targetManifest :=
    ⟨fun h => houtput (hplace.1 h), fun h => congrArg _ h⟩
  refine ⟨hpath, ?_⟩
  rw [← hpath, hplace, withExtension_eq_manifestName, hnames.location]
  simp only [List.append_cancel_left_eq]

end

/-! ## Texts -/

theorem Document.head?_write (d : Document) : d.write.toList.head? = some '\n' := by
  unfold Document.write
  rw [String.toList_append]
  rfl

theorem ActionList.head?_write (l : ActionList) : l.write.toList.head? = some 'a' := by
  have hsimple : Yaml.isSimple (.text rootKey) = true := by decide +kernel
  have hkey : (Yaml.inline 2 (.text rootKey)).1.head? = some 'a' := by decide +kernel
  unfold ActionList.write ActionList.toYaml Yaml.write
  simp only [String.toList_ofList, Yaml.writeBegun, List.isEmpty_cons, Bool.false_eq_true, if_false,
    Yaml.writeEntries, hsimple, if_true, List.nil_append, List.append_assoc, Nat.zero_add]
  rw [List.head?_append, hkey]
  rfl

theorem ActionList.write_ne (l : ActionList) (d : Document) : l.write.toUTF8 ≠ d.write.toUTF8 := by
  intro h
  have htext : l.write = d.write := String.toByteArray_inj.1 h
  have hhead := l.head?_write
  rw [htext, Document.head?_write] at hhead
  cases hhead

/-! ## After a run -/

/-- In the end every document that was built has its own file with its text, unless it was built of
a script `hcm-actions` directly in the source directory and the manifest was written after it. -/
theorem documents_of_generate {o : GenerateOptions} {t : FileTree} {s : GenerationSummary}
    (hnames : t.HasFileNames (t.place o.sourceDir)) (hapart : o.IsApart t) (h : (generate o t).1 = .ok s) :
    s.documents = (o.allBuilt t).map o.output ∧ s.documents.Nodup ∧
    ∀ f ∈ o.scripts t, ∀ b, o.built? t f = some b →
      (o.output b = o.targetManifest ↔
        ∃ name, f.location = t.place o.sourceDir ++ [name] ∧ Path.stem name = "hcm-actions") ∧
      ((generate o t).2.tree.at? (o.output b) = some (.file b.document.write.toUTF8) ↔
        ¬(o.output b = o.targetManifest ∧ s.manifest ≠ .unchanged)) := by
  have hfits : o.Fits t := ⟨isDirectory_of_generate h, hnames, hapart⟩
  obtain ⟨d, hcompletes⟩ := (generate_iff hfits).1 ⟨h, rfl⟩
  have hplaces := hfits.nodup_places
  have hsaved := FileTree.savedAll_of_saveAll hcompletes.saved
  refine ⟨hcompletes.documents, ?_, fun f hf b hb => ?_⟩
  · rw [hcompletes.documents]
    exact List.Pairwise.map _ (fun _ _ => mt (congrArg t.place)) (List.pairwise_map.1 hplaces)
  obtain ⟨hplace, hname⟩ := hfits.place_eq_iff hf hb
  refine ⟨hname, ?_⟩
  have hwritten : ((o.allBuilt t).map o.written).map (fun w => t.place w.1) =
      (o.allBuilt t).map fun b => t.place (o.output b) := List.map_map
  have hmem : o.written b ∈ (o.allBuilt t).map o.written :=
    List.mem_map_of_mem (List.mem_filterMap.2 ⟨f, hf, hb⟩)
  have hholds : d.Holds (o.written b) := hsaved.holds (hwritten ▸ hplaces) _ hmem
  have hsame : ∀ path, d.place path = t.place path := FileTree.place_congr hsaved.extends'.current
  generalize (generate o t).2.tree = t' at hcompletes ⊢
  generalize hmanifest : s.manifest = outcome
  -- the manifest comes last, so nothing is lost unless it is written
  rcases hmanifest ▸ hcompletes.manifest with _ | ⟨-, hsave⟩
  · refine ⟨fun _ hoverwritten => hoverwritten.2 rfl, fun _ => ?_⟩
    exact (FileTree.at?_of_locate hholds.1).trans hholds.2
  · have hsaved' := FileTree.saved_of_save hsave
    have hat : t'.at? (o.output b) = t'.entry? (d.place (o.output b)) :=
      FileTree.at?_of_locate (hsaved'.extends.locate hholds.1)
    by_cases hpath : o.output b = o.targetManifest
    · rw [hat, hpath, hsaved'.file]
      refine ⟨fun hfile => ?_, fun hkept => absurd ⟨rfl, nofun⟩ hkept⟩
      -- a document and a manifest never have the same text
      exact absurd (FileEntry.file.inj (Option.some.inj hfile)) (ActionList.write_ne _ _)
    · refine ⟨fun _ hoverwritten => hpath hoverwritten.1, fun _ => ?_⟩
      rw [hat]
      refine hsaved'.file_of_ne ?_ _ hholds.2
      rw [hsame, hsame]
      exact mt hplace.1 hpath

/-! ## The document that is lost -/

theorem generate_overwriting :
    (generate sampleOptions (sampleTree "hcm-actions.groovy")).1.toOption =
      some ⟨1, [sampleOptions.targetManifest], 1, .written sampleOptions.targetManifest 1⟩ ∧
    FileTree.at? (generate sampleOptions (sampleTree "hcm-actions.groovy")).2.tree
      sampleOptions.targetManifest =
      some (.file (ActionList.write (.reloads .default
        ["/hippo:configuration/hippo:update/hippo:queue/A"])).toUTF8) := by
  decide +kernel

theorem documents_of_generate_overwriting :
    let t := sampleTree "hcm-actions.groovy"
    let s : GenerationSummary :=
      ⟨1, [sampleOptions.targetManifest], 1, .written sampleOptions.targetManifest 1⟩
    s.documents = (sampleOptions.allBuilt t).map sampleOptions.output ∧ s.documents.Nodup ∧
    ∀ f ∈ sampleOptions.scripts t, ∀ b, sampleOptions.built? t f = some b →
      (sampleOptions.output b = sampleOptions.targetManifest ↔
        ∃ name, f.location = t.place sampleOptions.sourceDir ++ [name] ∧ Path.stem name = "hcm-actions") ∧
      (FileTree.at? (generate sampleOptions t).2.tree (sampleOptions.output b) =
        some (.file b.document.write.toUTF8) ↔
        ¬(sampleOptions.output b = sampleOptions.targetManifest ∧ s.manifest ≠ .unchanged)) :=
  documents_of_generate (by decide +kernel) (by decide +kernel) (eq_ok_of_toOption generate_overwriting.1)

/-- A document with the path of the manifest, and not in its file after the run. -/
theorem document_overwritten :
    let t := sampleTree "hcm-actions.groovy"
    t.HasFileNames (t.place sampleOptions.sourceDir) ∧ sampleOptions.IsApart t ∧
    ∃ s, (generate sampleOptions t).1 = .ok s ∧ sampleOptions.targetManifest ∈ s.documents ∧
      ∃ b ∈ sampleOptions.allBuilt t, sampleOptions.output b ∈ s.documents ∧
        FileTree.at? (generate sampleOptions t).2.tree (sampleOptions.output b) ≠
          some (.file b.document.write.toUTF8) := by
  intro t
  have hnames : t.HasFileNames (t.place sampleOptions.sourceDir) := by decide +kernel
  have hapart : sampleOptions.IsApart t := by decide +kernel
  have hgenerate := eq_ok_of_toOption generate_overwriting.1
  obtain ⟨d, hcompletes⟩ :=
    (generate_iff ⟨isDirectory_of_generate hgenerate, hnames, hapart⟩).1 ⟨hgenerate, rfl⟩
  have hdocuments := hcompletes.documents
  refine ⟨hnames, hapart, _, hgenerate, List.mem_singleton_self _, ?_⟩
  have hmem : sampleOptions.targetManifest ∈ (sampleOptions.allBuilt t).map sampleOptions.output :=
    hdocuments ▸ List.mem_singleton_self _
  obtain ⟨b, hb, houtput⟩ := List.mem_map.1 hmem
  refine ⟨b, hb, houtput ▸ List.mem_singleton_self _, ?_⟩
  rw [houtput, generate_overwriting.2]
  intro hfile
  exact ActionList.write_ne _ _ (FileEntry.file.inj (Option.some.inj hfile))

end UpdaterBootstrap
