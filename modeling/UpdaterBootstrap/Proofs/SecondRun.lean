import UpdaterBootstrap.Proofs.ManifestContent
import UpdaterBootstrap.Proofs.TreeEquality

/-!
# A second run

After a run that succeeded another one with the same options changes nothing (`generate_again`). It
builds the same documents. Where they have their own files, saving them again changes nothing, and the
manifest that is read then is the one that was written, which merges into itself. Where one of them has
the manifest's path, saving it takes the manifest back, and the tree is the one the manifest was written
to.
-/

namespace UpdaterBootstrap

namespace GenerateOptions

def writtenList? (o : GenerateOptions) (t : FileTree) : Option ActionList :=
  match t.saveAll ((o.allBuilt t).map o.written) with
  | .ok d => (o.collected d (o.derived t)).toOption.join
  | .error _ => none

section
variable {o : GenerateOptions} {t : FileTree} (hfits : o.Fits t)
include hfits

theorem Fits.holds {d : FileTree} (hsaved : t.SavedAll ((o.allBuilt t).map o.written) d) :
    ∀ w ∈ (o.allBuilt t).map o.written, d.Holds w := by
  refine hsaved.holds ?_
  rw [List.map_map]
  exact hfits.nodup_places

theorem Fits.not_isPrefix_targetManifest (text : String) :
    ∀ w ∈ (o.allBuilt t).map o.written ++ [(o.targetManifest, text)],
      ¬t.place o.sourceDir <+: t.place w.1 := by
  intro w hw
  rcases List.mem_append.1 hw with hw | hw
  · exact hfits.not_isPrefix_written w hw
  · rw [List.mem_singleton.1 hw, o.place_targetManifest]
    exact hfits.apart.not_isPrefix _

end

end GenerateOptions

/-- What a run of the same generation finds in a tree with the same scripts. -/
theorem Completes.again {o : GenerateOptions} {t d g d' t' : FileTree} {s : GenerationSummary}
    (hfits : o.Fits t) (h : Completes o t d s t') {ws : List (String × String)}
    (hws : ∀ w ∈ ws, ¬t.place o.sourceDir <+: t.place w.1) (hsaved : t.SavedAll ws g)
    (hdocuments : g.saveAll ((o.allBuilt t).map o.written) = .ok d')
    (hmanifest : WritesManifest o d' (o.derived t) s.manifest t') : Completes o g d' s t' := by
  have hscripts := hfits.scripts_of_saved hws hsaved
  have hbuilt := hfits.allBuilt_of_saved hws hsaved
  have hreloads : o.reloadPaths g = o.reloadPaths t := by
    unfold GenerateOptions.reloadPaths
    rw [hbuilt]
  refine ⟨fun x hx => ?_, ?_, ?_, ?_, ?_, ?_⟩
  · rw [hscripts] at hx
    rw [hfits.interpretation_of_saved hws hsaved hx]
    exact h.interpreted x hx
  · rwa [hbuilt]
  · unfold GenerateOptions.derived
    rwa [hreloads]
  · rw [hscripts, h.scripts]
  · rw [hbuilt, h.documents]
  · rw [hreloads, h.reloadEntries]

theorem FileTree.read?_congr {t t' : FileTree} {path : String} {l : Location} (h : t.locate path = .ok l)
    (h' : t'.locate path = .ok l) (hentry : t'.entry? l = t.entry? l) : t'.read? path = t.read? path := by
  rw [read?_of_locate h, read?_of_locate h', readAt?_congr hentry]

section
variable {o : GenerateOptions} {t d t' : FileTree} (hfits : o.Fits t)
  (hsaved : t.SavedAll ((o.allBuilt t).map o.written) d) {source old m : ActionList}
  (hsource : ActionList.ofFile (d.read? o.sourceManifest) = .ok source)
    (hne : ¬(source = [] ∧ o.derived t = []))
  (hsave : d.save o.targetManifest m.write = (.ok (), t'))
include hfits hsaved hsave

/-- If documents were saved, the manifest's directory was there before it was saved. -/
theorem eq_put_of_save (hbuilt : o.allBuilt t ≠ []) :
    t' = d.put (d.place o.targetManifest) (.file m.write.toUTF8) := by
  have hlocate := hfits.locate_targetManifest hsaved hbuilt
  rw [FileTree.save_of_locate hlocate (FileTree.saved_of_save hsave).free] at hsave
  exact (Prod.mk.inj hsave).2.symm

include hsource hne

/-- Saving the manifest leaves the one at the source, even if it is not there: without it something was
derived, so no directory is created. -/
theorem read?_sourceManifest_of_save : t'.read? o.sourceManifest = d.read? o.sourceManifest := by
  have hws := hfits.not_isPrefix_written
  have hfits' := hfits.of_saved hws hsaved
  have hlocate := GenerateOptions.locate_sourceManifest hfits'.directory
  have hsaved' := FileTree.saved_of_save hsave
  have hplace : d.place o.sourceManifest ≠ d.place o.targetManifest := by
    rw [o.place_sourceManifest, o.place_targetManifest]
    intro heq
    exact hfits'.apart.1 (List.append_cancel_right heq ▸ List.prefix_refl _)
  refine FileTree.read?_congr hlocate (hsaved'.extends.locate hlocate) ?_
  rcases hsaved'.others _ hplace with he | ⟨hnone, hdirectory⟩
  · exact he
  · have hempty : source = [] := by
      rw [FileTree.read?_of_at?_none (FileTree.at?_of_absent hnone)] at hsource
      exact (Except.ok.inj hsource).symm
    have hbuilt : o.allBuilt t ≠ [] := by
      intro hnil
      refine hne ⟨hempty, ?_⟩
      unfold GenerateOptions.derived GenerateOptions.reloadPaths
      rw [hnil]
      rfl
    rw [eq_put_of_save hfits hsaved hsave hbuilt, FileTree.entry?_put hsaved'.place_ne_nil, if_neg hplace]

/-- After the manifest has been written, saving the documents again and then the manifest ends in the
same tree. -/
theorem writesManifest_again (hold : ActionList.ofFile (d.read? o.targetManifest) = .ok old)
    (hm : ActionList.merge [o.derived t, old, source] = some m) (hyaml : Yaml.read m.write = .ok m.toYaml) :
    ∃ d', t'.saveAll ((o.allBuilt t).map o.written) = .ok d' ∧
      WritesManifest o d' (o.derived t) (.written o.targetManifest m.length) t' := by
  have hsaved' := FileTree.saved_of_save hsave
  have hholds := hfits.holds hsaved
  by_cases hmem : d.place o.targetManifest ∈ ((o.allBuilt t).map o.written).map fun w => d.place w.1
  · -- a document has the manifest's place and is saved over it
    have hbuilt : o.allBuilt t ≠ [] := by
      intro hnil
      rw [hnil] at hmem
      cases hmem
    refine ⟨d, ?_, writesManifest_iff.2 ⟨source, hsource, .inr ⟨hne, old, m, hold, hm, hsave, rfl⟩⟩⟩
    rw [eq_put_of_save hfits hsaved hsave hbuilt, FileTree.saveAll_again hsaved'.free hholds, if_pos hmem]
  · have hholds' : ∀ w ∈ (o.allBuilt t).map o.written, t'.Holds w := by
      intro w hw
      have hplace : d.place w.1 ≠ d.place o.targetManifest := by
        intro heq
        exact hmem (heq ▸ List.mem_map_of_mem hw)
      refine ⟨?_, ?_⟩ <;> rw [FileTree.place_congr hsaved'.current]
      · exact hsaved'.extends.locate (hholds w hw).1
      · exact hsaved'.file_of_ne hplace _ (hholds w hw).2
    -- the merged list takes in what it was merged from, so it is what is written again
    have hmanifest : t'.Holds (o.targetManifest, m.write) := by
      refine ⟨?_, ?_⟩ <;> rw [FileTree.place_congr hsaved'.current]
      · exact hsaved'.locate
      · exact hsaved'.file
    have hread : ActionList.ofFile (t'.read? o.targetManifest) = .ok m := by
      rw [FileTree.read?_of_file hsaved'.locate hsaved'.file]
      exact ActionList.read_write hyaml
    have hsource' : ActionList.ofFile (t'.read? o.sourceManifest) = .ok source := by
      rw [read?_sourceManifest_of_save hfits hsaved hsource hne hsave, hsource]
    exact ⟨t', FileTree.saveAll_of_holds hholds', writesManifest_iff.2 ⟨source, hsource', .inr
      ⟨hne, m, m, hread, ActionList.merge_absorb hm, hmanifest.save, rfl⟩⟩⟩

end

/-- A run after a run that succeeded succeeds with the same summary and changes nothing. -/
theorem generate_again {o : GenerateOptions} {t : FileTree} {s : GenerationSummary}
    (hnames : t.HasFileNames (t.place o.sourceDir)) (hapart : o.IsApart t) (h : (generate o t).1 = .ok s)
    (hyaml : ∀ l, o.writtenList? t = some l → Yaml.read l.write = .ok l.toYaml) :
    (generate o (generate o t).2.tree).1 = .ok s ∧
    Generation.tree (generate o (generate o t).2.tree).2 = (generate o t).2.tree := by
  have hfits : o.Fits t := ⟨isDirectory_of_generate h, hnames, hapart⟩
  obtain ⟨d, hcompletes⟩ := (generate_iff hfits).1 ⟨h, rfl⟩
  generalize (generate o t).2.tree = t' at hcompletes ⊢
  have hsaved := FileTree.savedAll_of_saveAll hcompletes.saved
  have hws := hfits.not_isPrefix_written
  obtain ⟨source, hsource, ⟨-, -, rfl⟩ | ⟨hne, old, m, hold, hm, hsave, hwritten⟩⟩ :=
    writesManifest_iff.1 hcompletes.manifest
  -- nothing was merged, so only the documents are saved again
  · have hdocuments := FileTree.saveAll_of_holds (hfits.holds hsaved)
    have hagain := hcompletes.again hfits hws hsaved hdocuments hcompletes.manifest
    exact (generate_iff (hfits.of_saved hws hsaved)).2 ⟨_, hagain⟩
  · have hcollected : o.writtenList? t = some m := by
      unfold GenerateOptions.writtenList? GenerateOptions.collected
      rw [hcompletes.saved]
      dsimp only
      rw [collectActionLists_eq_ok.2 ⟨source, hsource, .inr ⟨hne, old, hold, hm.symm⟩⟩]
      rfl
    -- the manifest counts as one more text that was saved
    have hall : t.saveAll ((o.allBuilt t).map o.written ++ [(o.targetManifest, m.write)]) = .ok t' :=
      FileTree.saveAll_append.2 ⟨d, hcompletes.saved, FileTree.saveAll_single.2 hsave⟩
    have hws' := hfits.not_isPrefix_targetManifest m.write
    have hsaved' := FileTree.savedAll_of_saveAll hall
    obtain ⟨d', hdocuments, hmanifest⟩ :=
      writesManifest_again hfits hsaved hsource hne hsave hold hm (hyaml m hcollected)
    rw [← hwritten] at hmanifest
    have hagain := hcompletes.again hfits hws' hsaved' hdocuments hmanifest
    exact (generate_iff (hfits.of_saved hws' hsaved')).2 ⟨_, hagain⟩

def sampleMerged : ActionList :=
  [⟨.default, AscendingMap.empty.insert "/hippo:configuration/hippo:update/hippo:queue/A" .reload⟩,
   ⟨sampleKey, (AscendingMap.empty.insert "/b" ⟨"delete"⟩).insert "/c" .reload⟩]

theorem read_sampleMerged : Yaml.read sampleMerged.write = .ok sampleMerged.toYaml :=
  Yaml.read_eq_ok (by decide +kernel)

theorem generate_again_merging :
    (generate sampleOptions (generate sampleOptions mergingTree).2.tree).1 =
      .ok ⟨1, ["target/A.yaml"], 1, .written sampleOptions.targetManifest 2⟩ ∧
    Generation.tree (generate sampleOptions (generate sampleOptions mergingTree).2.tree).2 =
      (generate sampleOptions mergingTree).2.tree := by
  have hwritten : sampleOptions.writtenList? mergingTree = some sampleMerged := by decide +kernel
  refine generate_again (by decide +kernel) (by decide +kernel) (eq_ok_of_toOption generate_merging)
    fun l hl => ?_
  rw [hwritten] at hl
  rw [← Option.some.inj hl]
  exact read_sampleMerged

end UpdaterBootstrap
