import UpdaterBootstrap.Proofs.KeptDocuments

/-!
# What the manifest holds after a run

Without a reload and without entries at the source the target's manifest stays as it is. Otherwise
it has the keys of both manifests and, if a reload is asked for, the default key, and under each
path the source's action, else the target's, else the reload (`manifest_of_generate`). The manifests
count as they were before the run, with one exception. A target such as `x/../out` is not found
while there is no `x`, and saving the first file creates `x`. If that file is the manifest, what was
there is overwritten and none of it is taken over (`manifest_overwritten`).
-/

namespace UpdaterBootstrap

namespace GenerateOptions

def isBuilt (o : GenerateOptions) (t : FileTree) (s : FoundScript) : Bool :=
  (o.class? t s).any fun m => m.isValid && !m.isExcluded

def reloaded? (o : GenerateOptions) (t : FileTree) (s : FoundScript) : Option String :=
  (o.class? t s).bind fun m =>
    if m.isValid && !m.isExcluded && m.bootstrap.reload then some m.nodePath else none

def reloaded (o : GenerateOptions) (t : FileTree) : List String :=
  (o.scripts t).filterMap (o.reloaded? t)

/-- What a run takes over of the entries at the place of the target's manifest. It looks for them at
the manifest's path when the documents have been saved; by then the path leads there if it did
before, or if there is a document. -/
def taken (o : GenerateOptions) (t : FileTree) (old : ActionList) : ActionList :=
  if t.contains o.targetManifest || (o.scripts t).any (o.isBuilt t) then old else []

structure IsManifest (o : GenerateOptions) (t : FileTree) (source old l : ActionList) : Prop where
  ascending : l.IsAscending
  keys : ∀ key, key ∈ l.keys ↔ key ∈ source.keys ∨ key ∈ old.keys ∨
    key = o.actionKey ∧ o.reloaded t ≠ []
  actions : ∀ key path, l.action? key path = (source.action? key path).or ((old.action? key path).or
    (if key = o.actionKey ∧ path ∈ o.reloaded t then some .reload else none))

theorem isManifest_of_merge {o : GenerateOptions} {t : FileTree} {source old l : ActionList}
    (h : ActionList.merge [.reloads o.actionKey (o.reloaded t), old, source] = some l) :
    o.IsManifest t source old l := by
  have hmerge := ActionList.isMergeOf_merge h
  simp only [List.flatten_cons, List.flatten_nil, List.append_nil] at hmerge
  refine ⟨hmerge.ascending, fun key => ?_, fun key path => ?_⟩
  · rw [hmerge.keys, ActionList.keys_append, ActionList.keys_append, List.mem_append, List.mem_append,
      ActionList.mem_keys_reloads, or_comm, or_assoc, or_left_comm]
  · rw [hmerge.actions, ActionList.action?_append, ActionList.action?_append,
      ActionList.action?_reloads, Option.or_assoc]

section
variable {o : GenerateOptions} {t : FileTree} (hfits : o.Fits t)
include hfits

theorem Fits.built?_isSome {s : FoundScript} (hs : s ∈ o.scripts t) :
    (o.built? t s).isSome = o.isBuilt t s := by
  obtain ⟨names, hnames⟩ := hfits.exists_isAt hs
  have hsource := ne_empty_of_isDirectory hfits.directory
  rw [Bool.eq_iff_iff, Option.isSome_iff_exists]
  unfold isBuilt
  rw [Option.any_eq_true]
  constructor
  · rintro ⟨b, hb⟩
    obtain ⟨m, hm, h, -⟩ := (GenerateOptions.built?_eq_some hnames hsource).1 hb
    exact ⟨m, hm, by rw [h.1, h.2]; rfl⟩
  · rintro ⟨m, hm, h⟩
    rw [Bool.and_eq_true, Bool.not_eq_true'] at h
    exact ⟨_, (GenerateOptions.built?_eq_some hnames hsource).2 ⟨m, hm, h, rfl⟩⟩

theorem Fits.reloadPath?_built? {s : FoundScript} (hs : s ∈ o.scripts t) :
    (o.built? t s).bind BuiltScript.reloadPath? = o.reloaded? t s := by
  obtain ⟨names, hnames⟩ := hfits.exists_isAt hs
  have hsource := ne_empty_of_isDirectory hfits.directory
  unfold reloaded?
  cases hb : o.built? t s with
  | none =>
    have hnot := hfits.built?_isSome hs
    rw [hb] at hnot
    unfold isBuilt at hnot
    cases hm : o.class? t s with
    | none => rfl
    | some m =>
      rw [hm] at hnot
      have hfalse : (m.isValid && !m.isExcluded) = false := hnot.symm
      rw [Option.bind_some, hfalse]
      rfl
  | some b =>
    obtain ⟨m, hm, ⟨hvalid, hexcluded⟩, rfl⟩ := (GenerateOptions.built?_eq_some hnames hsource).1 hb
    rw [hm, Option.bind_some, Option.bind_some, hvalid, hexcluded]
    unfold ClassModel.reloadPath?
    rw [hvalid, Bool.and_true]
    rfl

theorem Fits.reloadPaths_eq : o.reloadPaths t = o.reloaded t := by
  unfold reloadPaths reloaded allBuilt built
  rw [List.filterMap_filterMap]
  exact List.filterMap_congr fun s hs => hfits.reloadPath?_built? hs

theorem Fits.derived_eq : o.derived t = .reloads o.actionKey (o.reloaded t) := by
  unfold GenerateOptions.derived
  rw [hfits.reloadPaths_eq]

theorem Fits.derived_eq_nil_iff : o.derived t = [] ↔ o.reloaded t = [] := by
  rw [hfits.derived_eq, ActionList.reloads_eq_nil]

theorem Fits.length_allBuilt : (o.allBuilt t).length = (o.scripts t).countP (o.isBuilt t) := by
  unfold allBuilt built
  rw [List.length_filterMap_eq_countP]
  exact List.countP_congr fun s hs => by rw [hfits.built?_isSome hs]

/-- Every script is either built or skipped. -/
theorem Fits.length_scripts :
    (o.scripts t).length = (o.allBuilt t).length + (o.scripts t).countP fun f => !o.isBuilt t f := by
  rw [hfits.length_allBuilt, List.length_eq_countP_add_countP (o.isBuilt t)]
  simp only [Bool.not_eq_true, Bool.decide_eq_false]

theorem Fits.skipped_eq {d t' : FileTree} {s : GenerationSummary} (h : Completes o t d s t') :
    s.skipped = (o.scripts t).countP fun f => !o.isBuilt t f := by
  unfold GenerationSummary.skipped
  rw [h.scripts, h.documents, List.length_map, hfits.length_scripts, Nat.add_sub_cancel_left]

theorem Fits.allBuilt_eq_nil_iff : o.allBuilt t = [] ↔ (o.scripts t).any (o.isBuilt t) = false := by
  rw [← List.length_eq_zero_iff, hfits.length_allBuilt, List.countP_eq_zero, List.any_eq_false]

theorem Fits.not_isPrefix_written :
    ∀ w ∈ (o.allBuilt t).map o.written, ¬t.place o.sourceDir <+: t.place w.1 :=
  hfits.not_isPrefix_output fun _ hs => hs

/-- The source's manifest is read after the documents have been saved as it was before: they do not
touch the source directory. -/
theorem Fits.eq_source {d : FileTree} (hsaved : t.SavedAll ((o.allBuilt t).map o.written) d)
    {source l : ActionList} (hsource : ActionList.ofFile (t.read? o.sourceManifest) = .ok source)
    (hl : ActionList.ofFile (d.read? o.sourceManifest) = .ok l) : l = source := by
  obtain ⟨text, htext⟩ := ActionList.read?_of_ofFile hl
  have hlocate := locate_sourceManifest hfits.directory
  have hother : t.place o.sourceManifest ∉ ((o.allBuilt t).map o.written).map fun w => t.place w.1 := by
    intro hmem
    obtain ⟨w, hw, hplace⟩ := List.mem_map.1 hmem
    refine hfits.not_isPrefix_written w hw ?_
    rw [hplace, o.place_sourceManifest]
    exact List.prefix_append _ _
  have hread := htext
  rw [FileTree.read?_of_locate (hsaved.extends'.locate hlocate)] at hread
  rw [FileTree.read?_of_locate hlocate] at hsource
  rw [htext, ← FileTree.readAt?_of_added (hsaved.others _ hother) hread, hsource] at hl
  exact (Except.ok.inj hl).symm

/-- No document has the place of the target's manifest, if no script has the stem of its name. -/
theorem Fits.other_targetManifest
    (hstems : ∀ f ∈ o.scripts t, ∀ name, f.location = t.place o.sourceDir ++ [name] →
      Path.stem name ≠ "hcm-actions") :
    t.place o.targetManifest ∉ ((o.allBuilt t).map o.written).map fun w => t.place w.1 := by
  intro hmem
  obtain ⟨w, hw, hplace⟩ := List.mem_map.1 hmem
  obtain ⟨b, hb, rfl⟩ := List.mem_map.1 hw
  obtain ⟨f, hf, hb⟩ := List.mem_filterMap.1 hb
  obtain ⟨hpath, hname⟩ := hfits.place_eq_iff hf hb
  obtain ⟨name, hlocation, hstem⟩ := hname.1 (hpath.1 hplace)
  exact hstems f hf name hlocation hstem

/-- With documents in the target directory, the manifest is a file of that directory. -/
theorem Fits.locate_targetManifest {d : FileTree} (hsaved : t.SavedAll ((o.allBuilt t).map o.written) d)
    (hne : o.allBuilt t ≠ []) : d.locate o.targetManifest = .ok (d.place o.targetManifest) := by
  obtain ⟨b, bs, hbs⟩ := List.exists_cons_of_ne_nil hne
  have hb : b ∈ o.allBuilt t := hbs ▸ List.mem_cons_self
  obtain ⟨s, hs, hsb⟩ := List.mem_filterMap.1 hb
  obtain ⟨names, hnames⟩ := hfits.exists_isAt hs
  obtain ⟨m, -, -, rfl⟩ :=
    (GenerateOptions.built?_eq_some hnames (ne_empty_of_isDirectory hfits.directory)).1 hsb
  have hlocate := hsaved.locate _ (List.mem_map_of_mem hb)
  rw [o.place_targetManifest]
  exact FileTree.locate_join_sibling
    (Path.isAbsolute_intercalate (Path.isFileName_withExtension hnames.fileNames))
    isFileName_manifestName hlocate

/-- What is read of the target's manifest after the documents have been saved. -/
theorem Fits.eq_taken {d : FileTree} (hsaved : t.saveAll ((o.allBuilt t).map o.written) = .ok d)
    {old l : ActionList} (hold : ActionList.ofFile (t.readAt? (t.place o.targetManifest)) = .ok old)
    (hother : t.place o.targetManifest ∉ ((o.allBuilt t).map o.written).map fun w => t.place w.1)
    (hl : ActionList.ofFile (d.read? o.targetManifest) = .ok l) : l = o.taken t old := by
  obtain ⟨text, htext⟩ := ActionList.read?_of_ofFile hl
  unfold taken
  by_cases hfound : t.contains o.targetManifest || (o.scripts t).any (o.isBuilt t)
  · rw [if_pos hfound]
    have hall := FileTree.savedAll_of_saveAll hsaved
    -- the path leads there still, or since the first document has made its directories
    have hlocate : d.locate o.targetManifest = .ok (t.place o.targetManifest) := by
      rcases Bool.or_eq_true_iff.1 hfound with hcontains | hany
      · exact hall.extends'.locate (FileTree.locate_of_contains hcontains)
      · have hne : o.allBuilt t ≠ [] := fun hnil => by
          rw [hfits.allBuilt_eq_nil_iff.1 hnil] at hany
          cases hany
        rw [hfits.locate_targetManifest hall hne, FileTree.place_congr hall.extends'.current]
    have hread := htext
    rw [FileTree.read?_of_locate hlocate] at hread
    rw [htext, ← FileTree.readAt?_of_added (hall.others _ hother) hread, hold] at hl
    exact (Except.ok.inj hl).symm
  · -- nothing has been saved, and the path does not lead to the manifest
    obtain ⟨hcontains, hany⟩ := Bool.or_eq_false_iff.1 (Bool.eq_false_iff.2 hfound)
    rw [hfits.allBuilt_eq_nil_iff.2 hany] at hsaved
    obtain rfl := Except.ok.inj hsaved
    have hnone : t.read? o.targetManifest = .ok none := by
      unfold FileTree.read?
      rw [hcontains]
      rfl
    rw [if_neg hfound]
    rw [hnone] at hl
    exact (Except.ok.inj hl).symm

end

end GenerateOptions

theorem manifest_of_generate {o : GenerateOptions} {t : FileTree} {s : GenerationSummary}
    {source old : ActionList} (hnames : t.HasFileNames (t.place o.sourceDir)) (hapart : o.IsApart t)
    (hsource : ActionList.ofFile (t.read? o.sourceManifest) = .ok source)
    (hold : ActionList.ofFile (t.readAt? (t.place o.targetManifest)) = .ok old)
    (hstems : ∀ f ∈ o.scripts t, ∀ name, f.location = t.place o.sourceDir ++ [name] →
      Path.stem name ≠ "hcm-actions")
    (h : (generate o t).1 = .ok s) :
    (o.reloaded t = [] ∧ source = [] → s.manifest = .unchanged ∧
      ∀ bytes, FileTree.entry? (generate o t).2.tree (t.place o.targetManifest) = some (.file bytes) ↔
        t.entry? (t.place o.targetManifest) = some (.file bytes)) ∧
    (¬(o.reloaded t = [] ∧ source = []) → ∃ l, o.IsManifest t source (o.taken t old) l ∧
      s.manifest = .written o.targetManifest l.length ∧
      FileTree.at? (generate o t).2.tree o.targetManifest = some (.file l.write.toUTF8)) ∧
    s.reloadEntries = (o.reloaded t).length ∧
    s.scripts = s.documents.length + s.skipped ∧
    s.skipped = (o.scripts t).countP fun f => !o.isBuilt t f := by
  have hfits : o.Fits t := ⟨isDirectory_of_generate h, hnames, hapart⟩
  obtain ⟨d, hcompletes⟩ := (generate_iff hfits).1 ⟨h, rfl⟩
  have hsaved := FileTree.savedAll_of_saveAll hcompletes.saved
  have hother := hfits.other_targetManifest hstems
  have hskipped := hfits.skipped_eq hcompletes
  generalize (generate o t).2.tree = t' at hcompletes ⊢
  -- the manifest at the target is read only if there is something to merge
  obtain ⟨l, hl, hmanifest⟩ := writesManifest_iff.1 hcompletes.manifest
  obtain rfl := hfits.eq_source hsaved hsource hl
  rw [hfits.derived_eq_nil_iff] at hmanifest
  refine ⟨fun hnothing => ?_, fun hsomething => ?_, ?_, ?_, hskipped⟩
  · rcases hmanifest with ⟨-, hunchanged, rfl⟩ | ⟨hne, -⟩
    · exact ⟨hunchanged, FileTree.file_iff_of_added (hsaved.others _ hother)⟩
    · exact absurd hnothing.symm hne
  · rcases hmanifest with ⟨hnothing, -⟩ | ⟨-, met, m, hmet, hm, hsave, hwritten⟩
    · exact absurd hnothing.symm hsomething
    -- it is read when the documents stand, so it may be hidden from the run
    · obtain rfl := hfits.eq_taken hcompletes.saved hold hother hmet
      rw [hfits.derived_eq] at hm
      have hfile := FileTree.saved_of_save hsave
      exact ⟨m, GenerateOptions.isManifest_of_merge hm, hwritten,
        (FileTree.at?_of_locate hfile.locate).trans hfile.file⟩
  · rw [hcompletes.reloadEntries, hfits.reloadPaths_eq]
  · rw [hskipped, hcompletes.scripts, hcompletes.documents, List.length_map, hfits.length_scripts]

/-! ## Runs with two manifests -/

def sampleKey : SequenceKey :=
  ⟨2.0, by decide, by decide⟩

def sampleSource : ActionList :=
  [⟨sampleKey, AscendingMap.empty.insert "/b" ⟨"delete"⟩⟩]

def sampleOld : ActionList :=
  [⟨sampleKey, (AscendingMap.empty.insert "/b" ⟨"append"⟩).insert "/c" .reload⟩]

def mergingTree : FileTree :=
  (((sampleTree "A.groovy").put ["src", "hcm-actions.yaml"]
    (.file "action-lists: [{2: {/b: delete}}]".toUTF8)).put ["target"] .directory).put
    ["target", "hcm-actions.yaml"] (.file "action-lists: [{2: {/b: append, /c: reload}}]".toUTF8)

theorem generate_merging : (generate sampleOptions mergingTree).1.toOption =
    some ⟨1, ["target/A.yaml"], 1, .written sampleOptions.targetManifest 2⟩ := by
  decide +kernel

theorem manifest_of_generate_merging :
    ∃ l, sampleOptions.IsManifest mergingTree sampleSource sampleOld l ∧
      FileTree.at? (generate sampleOptions mergingTree).2.tree sampleOptions.targetManifest =
        some (.file l.write.toUTF8) := by
  have hscripts : sampleOptions.scripts mergingTree = [⟨"src/A.groovy", ["src", "A.groovy"]⟩] := by
    decide +kernel
  have hsource : ActionList.ofFile (mergingTree.read? sampleOptions.sourceManifest) = .ok sampleSource :=
    eq_ok_of_toOption (by decide +kernel)
  have hold : ActionList.ofFile (mergingTree.readAt? (mergingTree.place sampleOptions.targetManifest)) =
      .ok sampleOld :=
    eq_ok_of_toOption (by decide +kernel)
  have htaken : sampleOptions.taken mergingTree sampleOld = sampleOld := if_pos (by decide +kernel)
  have hplace : mergingTree.place sampleOptions.sourceDir = ["src"] := by decide +kernel
  have hstem : Path.stem "A.groovy" ≠ "hcm-actions" := by decide +kernel
  obtain ⟨-, hwritten, -⟩ := manifest_of_generate (by decide +kernel) (by decide +kernel) hsource hold
    (fun f hf name hlocation => by
      rw [hscripts, List.mem_singleton] at hf
      rw [hf, hplace] at hlocation
      rw [← List.singleton_inj.1 (List.cons.inj hlocation).2]
      exact hstem)
    (eq_ok_of_toOption generate_merging)
  obtain ⟨l, hl, -, hfile⟩ := hwritten fun h => absurd h.2 (List.cons_ne_nil _ _)
  exact ⟨l, htaken ▸ hl, hfile⟩

def hiddenOptions : GenerateOptions :=
  ⟨"src", "x/../out", "groovy", false, .default⟩

def hiddenSource : ActionList :=
  [⟨⟨1.0, by decide, by decide⟩, AscendingMap.empty.insert "/b" ⟨"delete"⟩⟩]

def hiddenOld : ActionList :=
  [⟨sampleKey, AscendingMap.empty.insert "/c" .reload⟩]

/-- No script, a manifest at the source, and one in `out`, to which the path `x/../out` leads once
there is an `x`. -/
def hiddenTree : FileTree :=
  ((((FileTree.bare []).put ["src"] .directory).put ["src", "hcm-actions.yaml"]
    (.file "action-lists: [{1: {/b: delete}}]".toUTF8)).put ["out"] .directory).put
    ["out", "hcm-actions.yaml"] (.file "action-lists: [{2: {/c: reload}}]".toUTF8)

/-- The old manifest is overwritten with one entry, without its own key. -/
theorem manifest_overwritten :
    let t := hiddenTree
    let o := hiddenOptions
    t.HasFileNames (t.place o.sourceDir) ∧ o.IsApart t ∧
    ActionList.ofFile (t.read? o.sourceManifest) = .ok hiddenSource ∧
    ActionList.ofFile (t.readAt? (t.place o.targetManifest)) = .ok hiddenOld ∧ o.scripts t = [] ∧
    ∃ s, (generate o t).1 = .ok s ∧ ¬(o.reloaded t = [] ∧ hiddenSource = []) ∧
      ¬∃ l, o.IsManifest t hiddenSource hiddenOld l ∧ s.manifest = .written o.targetManifest l.length ∧
        FileTree.at? (generate o t).2.tree o.targetManifest = some (.file l.write.toUTF8) := by
  have hgenerate : (generate hiddenOptions hiddenTree).1.toOption =
      some ⟨0, [], 0, .written hiddenOptions.targetManifest 1⟩ := by decide +kernel
  refine ⟨by decide +kernel, by decide +kernel, eq_ok_of_toOption (by decide +kernel),
    eq_ok_of_toOption (by decide +kernel), by decide +kernel, _, eq_ok_of_toOption hgenerate,
    fun h => absurd h.2 (List.cons_ne_nil _ _), ?_⟩
  rintro ⟨l, hl, hlength, -⟩
  obtain ⟨e, rfl⟩ := List.length_eq_one_iff.1 (ManifestOutcome.written.inj hlength).2.symm
  have hkeys (key : SequenceKey) (h : key ∈ hiddenSource.keys ∨ key ∈ hiddenOld.keys) : key = e.key :=
    List.mem_singleton.1 ((hl.keys key).2 (h.imp id .inl))
  have hone := hkeys ⟨1.0, by decide, by decide⟩ (.inl (List.mem_singleton_self _))
  have htwo := hkeys sampleKey (.inr (List.mem_singleton_self _))
  exact absurd (hone.trans htwo.symm) (by decide)

end UpdaterBootstrap
