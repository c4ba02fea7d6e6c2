import UpdaterBootstrap.Proofs.BuiltScripts
import UpdaterBootstrap.Proofs.Outcome

/-!
# Generations that succeed

A generation succeeds exactly if every script can be interpreted, all documents that are built can be
saved one after the other, and then the manifest can (`generate_iff`). The invariant that carries the
run over the scripts is that nothing saved so far is in the source directory, so every script is read
as it was before the run.
-/

namespace UpdaterBootstrap

namespace GenerateOptions

structure Fits (o : GenerateOptions) (t : FileTree) : Prop where
  directory : t.isDirectory o.sourceDir = true
  fileNames : t.HasFileNames (t.place o.sourceDir)
  apart : o.IsApart t

theorem built?_congr (o : GenerateOptions) {t t' : FileTree} {s : FoundScript}
    (h : o.interpretation t' s = o.interpretation t s) : o.built? t' s = o.built? t s := by
  unfold built? class?
  rw [h]

theorem written_fst (o : GenerateOptions) (b : BuiltScript) : (o.written b).1 = o.output b := rfl

section
variable {o : GenerateOptions} {t : FileTree} (hfits : o.Fits t)
include hfits

theorem Fits.exists_isAt {s : FoundScript} (hs : s ∈ o.scripts t) :
    ∃ names, s.IsAt t o.sourceDir o.extension names :=
  exists_isAt_of_mem hfits.directory hfits.fileNames hs

theorem Fits.place_output {s : FoundScript} {names : List String}
    (hs : s.IsAt t o.sourceDir o.extension names) {b : BuiltScript} (hb : o.built? t s = some b) :
    t.place (o.output b) = t.place o.targetDir ++ Path.withExtension "yaml" names :=
  GenerateOptions.place_output hs (ne_empty_of_isDirectory hfits.directory) hb

theorem Fits.not_isPrefix_output {ss : List FoundScript} (hss : ∀ s ∈ ss, s ∈ o.scripts t) :
    ∀ w ∈ (o.built t ss).map o.written, ¬t.place o.sourceDir <+: t.place w.1 := by
  intro w hw
  obtain ⟨b, hb, rfl⟩ := List.mem_map.1 hw
  obtain ⟨s, hs, hb⟩ := List.mem_filterMap.1 hb
  obtain ⟨names, hnames⟩ := hfits.exists_isAt (hss s hs)
  rw [written_fst, hfits.place_output hnames hb]
  exact hfits.apart.not_isPrefix _

/-! Saves outside the source directory make no difference to the scripts. -/

section
variable {ws : List (String × String)} (hws : ∀ w ∈ ws, ¬t.place o.sourceDir <+: t.place w.1) {t' : FileTree}
  (hsaved : t.SavedAll ws t')
include hws hsaved

theorem Fits.scripts_of_saved : o.scripts t' = o.scripts t :=
  discoverScripts_congr hfits.directory hsaved.extends' (hsaved.files _ hws)

theorem Fits.interpretation_of_saved {s : FoundScript} (hs : s ∈ o.scripts t) :
    o.interpretation t' s = o.interpretation t s := by
  obtain ⟨names, hnames⟩ := hfits.exists_isAt hs
  obtain ⟨bytes, hfile⟩ := hnames.file
  refine o.interpretation_congr hsaved.extends'.current ?_
  rw [hfile]
  refine hsaved.file_of_not_mem (fun hmem => ?_) hfile
  obtain ⟨w, hw, hplace⟩ := List.mem_map.1 hmem
  refine hws w hw ?_
  rw [hplace, hnames.location]
  exact List.prefix_append _ _

theorem Fits.of_saved : o.Fits t' := by
  have hcurrent := hsaved.extends'.current
  refine ⟨hsaved.extends'.isDirectory hfits.directory, ?_, ?_⟩
  · unfold FileTree.HasFileNames
    rw [FileTree.place_congr hcurrent, hsaved.files _ hws]
    exact hfits.fileNames
  · unfold IsApart
    rw [FileTree.place_congr hcurrent, FileTree.place_congr hcurrent]
    exact hfits.apart

end

end

end GenerateOptions

/-! ## One script after the other -/

/-- What a generation has come to after some scripts, all of which went well. -/
structure Generation.Accounts (o : GenerateOptions) (t : FileTree) (done : List FoundScript)
    (g : Generation) :
    Prop where
  interpreter : ∃ h, g.interpreter = o.interpreter h
  tree : t.saveAll ((o.built t done).map o.written) = .ok g.tree
  documents : g.documents = (o.built t done).map o.output
  derived : g.derived = .reloads o.actionKey ((o.built t done).filterMap BuiltScript.reloadPath?)
  reloadEntries : g.reloadEntries = ((o.built t done).filterMap BuiltScript.reloadPath?).length

namespace Generation

theorem accounts_begin (o : GenerateOptions) (t : FileTree) : (begin t o.keepLineCount).Accounts o t [] :=
  ⟨⟨_, rfl⟩, rfl, rfl, rfl, rfl⟩

section
variable {o : GenerateOptions} {g : Generation} {b : BuiltScript} {t' : FileTree}

theorem emit_of_error {fault : FileFault}
    (h : g.tree.save (o.output b) b.document.write = (.error fault, t')) :
    g.emit o b = (.error (.manifest (.file fault)), { g with tree := t' }) := by
  unfold GenerateOptions.output at h
  unfold Generation.emit
  dsimp only
  rw [h]

theorem emit_of_ok (h : g.tree.save (o.output b) b.document.write = (.ok (), t')) :
    g.emit o b = (.ok (), addReload { g with tree := t', documents := g.documents ++ [o.output b] } b) := by
  unfold GenerateOptions.output at h ⊢
  unfold Generation.emit
  dsimp only
  rw [h]

end

section
variable {o : GenerateOptions} {t : FileTree} {g : Generation} {done : List FoundScript}
  (h : g.Accounts o t done)
include h

theorem Accounts.of_nothing {s : FoundScript} (hs : o.built t [s] = []) : g.Accounts o t (done ++ [s]) := by
  have hbuilt : o.built t (done ++ [s]) = o.built t done := by
    rw [o.built_append, hs, List.append_nil]
  refine ⟨h.interpreter, ?_, ?_, ?_, ?_⟩ <;> rw [hbuilt]
  · exact h.tree
  · exact h.documents
  · exact h.derived
  · exact h.reloadEntries

theorem Accounts.addReload {b : BuiltScript} {s : FoundScript} {t' : FileTree} (hs : o.built t [s] = [b])
    (hkey : b.actionKey = o.actionKey) (hsave : g.tree.save (o.output b) b.document.write = (.ok (), t')) :
    Accounts o t (done ++ [s])
      (Generation.addReload { g with tree := t', documents := g.documents ++ [o.output b] } b) := by
  have hbuilt : o.built t (done ++ [s]) = o.built t done ++ [b] := by
    rw [o.built_append, hs]
  -- the document of the script is the last one of those saved so far
  have htree : t.saveAll ((o.built t (done ++ [s])).map o.written) = .ok t' := by
    rw [hbuilt, List.map_append]
    exact FileTree.saveAll_append.2 ⟨g.tree, h.tree, FileTree.saveAll_single.2 hsave⟩
  have hdocuments : g.documents ++ [o.output b] = (o.built t (done ++ [s])).map o.output := by
    rw [hbuilt, List.map_append, h.documents]
    rfl
  unfold Generation.addReload
  cases hreload : b.reloadPath? with
  | none =>
    have hpaths : (o.built t (done ++ [s])).filterMap BuiltScript.reloadPath? =
        (o.built t done).filterMap BuiltScript.reloadPath? := by
      rw [hbuilt, List.filterMap_append, List.filterMap_cons_none hreload, List.filterMap_nil,
        List.append_nil]
    exact ⟨h.interpreter, htree, hdocuments, hpaths ▸ h.derived, hpaths ▸ h.reloadEntries⟩
  | some path =>
    have hpaths : (o.built t (done ++ [s])).filterMap BuiltScript.reloadPath? =
        (o.built t done).filterMap BuiltScript.reloadPath? ++ [path] := by
      rw [hbuilt, List.filterMap_append, List.filterMap_cons_some hreload, List.filterMap_nil]
    refine ⟨h.interpreter, htree, hdocuments, ?_, ?_⟩
    · rw [hpaths, ActionList.reloads_append, ← h.derived, hkey]
      rfl
    · rw [hpaths, List.length_append, ← h.reloadEntries]
      rfl

theorem Accounts.emit {b : BuiltScript} {s : FoundScript} (hs : o.built t [s] = [b])
    (hkey : b.actionKey = o.actionKey) :
    ((g.emit o b).1 = .ok () ↔ ∃ m, g.tree.saveAll ((o.built t [s]).map o.written) = .ok m) ∧
    ((g.emit o b).1 = .ok () → Accounts o t (done ++ [s]) (g.emit o b).2) := by
  have hone : ∀ m, g.tree.saveAll ((o.built t [s]).map o.written) = .ok m ↔
      g.tree.save (o.output b) b.document.write = (.ok (), m) := by
    intro m
    rw [hs]
    exact FileTree.saveAll_single
  simp only [hone]
  rcases hsave : g.tree.save (o.output b) b.document.write with ⟨fault | ⟨⟩, t'⟩
  · rw [emit_of_error hsave]
    exact ⟨⟨nofun, nofun⟩, nofun⟩
  · rw [emit_of_ok hsave]
    exact ⟨⟨fun _ => ⟨t', rfl⟩, fun _ => rfl⟩, fun _ => h.addReload hs hkey hsave⟩

/-- A script that is built as before the run is processed without a fault if it can be interpreted
and its document, if it has one, can be saved. -/
theorem Accounts.processScript_of_build {s : FoundScript} {history : UnitHistory}
    (hbuild : g.interpreter.build o.sourceDir s.path (g.tree.absolutePath s.path) o.actionKey
      (g.tree.readAt s.location) =
        ((o.interpretation t s).map fun _ => o.built? t s, o.interpreter history)) :
    ((g.processScript o s).1 = .ok () ↔ (∃ x, o.interpretation t s = .ok x) ∧
      ∃ m, g.tree.saveAll ((o.built t [s]).map o.written) = .ok m) ∧
    ((g.processScript o s).1 = .ok () → Accounts o t (done ++ [s]) (g.processScript o s).2) := by
  have haccounts : Accounts o t done
      { g with interpreter := o.interpreter history, processed := g.processed ++ [s.path] } :=
    ⟨⟨history, rfl⟩, h.tree, h.documents, h.derived, h.reloadEntries⟩
  unfold Generation.processScript
  rw [hbuild]
  cases hx : o.interpretation t s with
  | error e => exact ⟨⟨nofun, fun ⟨⟨_, hx⟩, _⟩ => nomatch hx⟩, nofun⟩
  | ok x =>
    have hinterpreted : ∃ x', (Except.ok x : Except InvalidUpdaterName Interpretation) = .ok x' := ⟨x, rfl⟩
    cases hb : o.built? t s with
    | none =>
      have hnone : o.built t [s] = [] := List.filterMap_cons_none hb
      rw [hnone]
      exact ⟨⟨fun _ => ⟨hinterpreted, g.tree, rfl⟩, fun _ => rfl⟩, fun _ => haccounts.of_nothing hnone⟩
    | some b =>
      have hsome : o.built t [s] = [b] := List.filterMap_cons_some hb
      obtain ⟨hok, hafter⟩ := haccounts.emit hsome (o.actionKey_of_built? hb)
      exact ⟨⟨fun hemit => ⟨hinterpreted, hok.1 hemit⟩, fun hsave => hok.2 hsave.2⟩, hafter⟩

variable (hfits : o.Fits t) (hdone : ∀ s ∈ done, s ∈ o.scripts t)
include hfits hdone

/-- A script is built as it would be in the tree before the run. -/
theorem Accounts.build {s : FoundScript} (hs : s ∈ o.scripts t) :
    ∃ history, g.interpreter.build o.sourceDir s.path (g.tree.absolutePath s.path) o.actionKey
      (g.tree.readAt s.location) =
      ((o.interpretation t s).map fun _ => o.built? t s, o.interpreter history) := by
  obtain ⟨history, hinterpreter⟩ := h.interpreter
  obtain ⟨history', hbuild⟩ := o.build_interpreter g.tree s history
  have hsame :=
    hfits.interpretation_of_saved (hfits.not_isPrefix_output hdone) (FileTree.savedAll_of_saveAll h.tree) hs
  rw [hsame, o.built?_congr hsame] at hbuild
  rw [hinterpreter]
  exact ⟨history', hbuild⟩

/-- A script is processed without a fault if it can be interpreted and its document, if it has one,
can be saved. -/
theorem Accounts.processScript {s : FoundScript} (hs : s ∈ o.scripts t) :
    ((g.processScript o s).1 = .ok () ↔ (∃ x, o.interpretation t s = .ok x) ∧
      ∃ m, g.tree.saveAll ((o.built t [s]).map o.written) = .ok m) ∧
    ((g.processScript o s).1 = .ok () → Accounts o t (done ++ [s]) (g.processScript o s).2) := by
  obtain ⟨history, hbuild⟩ := h.build hfits hdone hs
  exact h.processScript_of_build hbuild

end

/-- The scripts of a run are processed without a fault if that holds for each of them in turn. -/
theorem Accounts.processScripts {o : GenerateOptions} {t : FileTree} (hfits : o.Fits t) :
    ∀ {ss done : List FoundScript} {g : Generation}, g.Accounts o t done →
      (∀ s ∈ done ++ ss, s ∈ o.scripts t) →
      ((g.processScripts o ss).1 = .ok () ↔ (∀ s ∈ ss, ∃ x, o.interpretation t s = .ok x) ∧
        ∃ m, g.tree.saveAll ((o.built t ss).map o.written) = .ok m) ∧
      ((g.processScripts o ss).1 = .ok () → Accounts o t (done ++ ss) (g.processScripts o ss).2)
  | [], done, g, h, _ => by
    rw [List.append_nil]
    exact ⟨⟨fun _ => ⟨nofun, g.tree, rfl⟩, fun _ => rfl⟩, fun _ => h⟩
  | s :: ss, done, g, h, hall => by
    have hdone : ∀ x ∈ done, x ∈ o.scripts t := fun x hx => hall x (List.mem_append_left _ hx)
    have hs : s ∈ o.scripts t := hall s (List.mem_append_right _ List.mem_cons_self)
    have hsplit : (o.built t (s :: ss)).map o.written = (o.built t [s]).map o.written ++
        (o.built t ss).map o.written := by
      rw [← List.map_append, ← o.built_append]
      rfl
    obtain ⟨hok, hafter⟩ := h.processScript hfits hdone hs
    rw [Generation.processScripts, hsplit]
    rcases hstep : g.processScript o s with ⟨fault | ⟨⟩, g'⟩
    · refine ⟨⟨nofun, fun ⟨hinterpreted, m, hm⟩ => ?_⟩, nofun⟩
      obtain ⟨m', hm', -⟩ := FileTree.saveAll_append.1 hm
      have := hok.2 ⟨hinterpreted s List.mem_cons_self, m', hm'⟩
      rw [hstep] at this
      cases this
    · rw [hstep] at hok hafter
      have haccounts := hafter rfl
      obtain ⟨hinterpreted, hsaved⟩ := hok.1 rfl
      -- the documents of this script are saved in the tree left by those before
      have hone : g.tree.saveAll ((o.built t [s]).map o.written) = .ok g'.tree := by
        have hboth := haccounts.tree
        rw [o.built_append, List.map_append] at hboth
        obtain ⟨m, hm, hone⟩ := FileTree.saveAll_append.1 hboth
        rw [h.tree] at hm
        rwa [← Except.ok.inj hm] at hone
      have hall' : ∀ x ∈ (done ++ [s]) ++ ss, x ∈ o.scripts t := by
        rwa [List.append_assoc]
      obtain ⟨hrest, hend⟩ := haccounts.processScripts hfits hall'
      rw [List.append_assoc] at hend
      refine ⟨hrest.trans ?_, hend⟩
      constructor
      · rintro ⟨hinterpreted', m, hm⟩
        exact ⟨List.forall_mem_cons.2 ⟨hinterpreted, hinterpreted'⟩, m,
          FileTree.saveAll_append.2 ⟨_, hone, hm⟩⟩
      · rintro ⟨hinterpreted', m, hm⟩
        obtain ⟨m', hm', hm⟩ := FileTree.saveAll_append.1 hm
        rw [hone] at hm'
        rw [← Except.ok.inj hm'] at hm
        exact ⟨(List.forall_mem_cons.1 hinterpreted').2, m, hm⟩

end Generation

/-! ## The manifest -/

namespace GenerateOptions

def collected (o : GenerateOptions) (t : FileTree) (derived : ActionList) :
    Except ManifestFault (Option ActionList) :=
  collectActionLists (t.read? o.sourceManifest) (t.read? o.targetManifest) derived

end GenerateOptions

inductive WritesManifest (o : GenerateOptions) (d : FileTree) (derived : ActionList) :
    ManifestOutcome → FileTree → Prop
  | unchanged (h : o.collected d derived = .ok none) : WritesManifest o d derived .unchanged d
  | written {l : ActionList} {t' : FileTree} (h : o.collected d derived = .ok (some l))
      (hsave : d.save o.targetManifest l.write = (.ok (), t')) :
      WritesManifest o d derived (.written o.targetManifest l.length) t'

theorem writeManifest_iff {o : GenerateOptions} {g : Generation} {outcome : ManifestOutcome} {t' : FileTree} :
    ((g.writeManifest o).1 = .ok outcome ∧ (g.writeManifest o).2.tree = t') ↔
      WritesManifest o g.tree g.derived outcome t' := by
  have hcollected : collectActionLists (g.tree.read? (Path.join o.sourceDir manifestName))
      (g.tree.read? (Path.join o.targetDir manifestName)) g.derived = o.collected g.tree g.derived := rfl
  unfold Generation.writeManifest
  dsimp only
  rw [hcollected]
  -- a fault, nothing to merge, or a list to save
  rcases hl : o.collected g.tree g.derived with fault | (_ | l)
  · constructor
    · rintro ⟨h, -⟩
      cases h
    · rintro (h | h) <;> rw [hl] at h <;> cases h
  · constructor
    · rintro ⟨h, rfl⟩
      rw [← Except.ok.inj h]
      exact .unchanged hl
    · rintro (h | h)
      · exact ⟨rfl, rfl⟩
      · rw [hl] at h
        cases h
  · dsimp only
    have htarget : Path.join o.targetDir manifestName = o.targetManifest := rfl
    rw [htarget]
    rcases hsave : g.tree.save o.targetManifest l.write with ⟨fault | ⟨⟩, m⟩
    · constructor
      · rintro ⟨h, -⟩
        cases h
      · rintro (h | ⟨h, hsave'⟩)
        · rw [hl] at h
          cases h
        · rw [hl] at h
          obtain rfl := Option.some.inj (Except.ok.inj h)
          rw [hsave] at hsave'
          cases hsave'
    · constructor
      · rintro ⟨h, rfl⟩
        rw [← Except.ok.inj h]
        exact .written hl hsave
      · rintro (h | ⟨h, hsave'⟩)
        · rw [hl] at h
          cases h
        · rw [hl] at h
          obtain rfl := Option.some.inj (Except.ok.inj h)
          rw [hsave] at hsave'
          exact ⟨rfl, (Prod.mk.inj hsave').2⟩

theorem writeManifest_snd (o : GenerateOptions) (g : Generation) :
    (g.writeManifest o).2 = { g with tree := (g.writeManifest o).2.tree } := by
  unfold Generation.writeManifest
  dsimp only
  split
  · rfl
  · rfl
  · split <;> rfl

/-! ## A generation -/

namespace GenerateOptions

def allBuilt (o : GenerateOptions) (t : FileTree) : List BuiltScript :=
  o.built t (o.scripts t)

def reloadPaths (o : GenerateOptions) (t : FileTree) : List String :=
  (o.allBuilt t).filterMap BuiltScript.reloadPath?

def derived (o : GenerateOptions) (t : FileTree) : ActionList :=
  .reloads o.actionKey (o.reloadPaths t)

theorem Fits.allBuilt_of_saved {o : GenerateOptions} {t : FileTree} (hfits : o.Fits t)
    {ws : List (String × String)}
    (hws : ∀ w ∈ ws, ¬t.place o.sourceDir <+: t.place w.1) {t' : FileTree} (hsaved : t.SavedAll ws t') :
    o.allBuilt t' = o.allBuilt t := by
  unfold allBuilt
  rw [hfits.scripts_of_saved hws hsaved]
  exact List.filterMap_congr fun s hs => o.built?_congr (hfits.interpretation_of_saved hws hsaved hs)

end GenerateOptions

/-- A generation from the tree `t` succeeds with a summary. `d` is the tree with all documents, and
`t'` the tree in the end. -/
structure Completes (o : GenerateOptions) (t d : FileTree) (s : GenerationSummary) (t' : FileTree) :
    Prop where
  interpreted : ∀ x ∈ o.scripts t, ∃ i, o.interpretation t x = .ok i
  saved : t.saveAll ((o.allBuilt t).map o.written) = .ok d
  manifest : WritesManifest o d (o.derived t) s.manifest t'
  scripts : s.scripts = (o.scripts t).length
  documents : s.documents = (o.allBuilt t).map o.output
  reloadEntries : s.reloadEntries = (o.reloadPaths t).length

theorem isDirectory_of_generate {o : GenerateOptions} {t : FileTree} {s : GenerationSummary}
    (h : (generate o t).1 = .ok s) : t.isDirectory o.sourceDir = true := by
  cases hdirectory : t.isDirectory o.sourceDir with
  | true => rfl
  | false =>
    unfold generate at h
    rw [hdirectory] at h
    cases h

section
variable {o : GenerateOptions} {t : FileTree} {g : Generation} (hdirectory : t.isDirectory o.sourceDir = true)
include hdirectory

theorem generate_of_error {fault : GenerateFault}
    (h : (Generation.begin t o.keepLineCount).processScripts o (o.scripts t) = (.error fault, g)) :
    generate o t = (.error fault, g) := by
  unfold generate
  unfold GenerateOptions.scripts at h
  dsimp only
  rw [hdirectory, if_neg (by decide), h]

theorem generate_of_ok (h : (Generation.begin t o.keepLineCount).processScripts o (o.scripts t) =
      (.ok (), g)) :
    generate o t = ((g.writeManifest o).1.map fun outcome =>
      ⟨(o.scripts t).length, g.documents, g.reloadEntries, outcome⟩, (g.writeManifest o).2) := by
  unfold generate
  unfold GenerateOptions.scripts at h ⊢
  dsimp only
  rw [hdirectory, if_neg (by decide), h]
  dsimp only
  rw [writeManifest_snd]

end

theorem generate_iff {o : GenerateOptions} {t t' : FileTree} {s : GenerationSummary} (hfits : o.Fits t) :
    ((generate o t).1 = .ok s ∧ (generate o t).2.tree = t') ↔ ∃ d, Completes o t d s t' := by
  have hall : ∀ s ∈ [] ++ o.scripts t, s ∈ o.scripts t := fun _ hs => hs
  obtain ⟨hok, hafter⟩ := (Generation.accounts_begin o t).processScripts hfits hall
  rcases hrun : (Generation.begin t o.keepLineCount).processScripts o (o.scripts t) with ⟨fault | ⟨⟩, g⟩
  · rw [generate_of_error hfits.directory hrun]
    constructor
    · rintro ⟨h, -⟩
      cases h
    · rintro ⟨d, h⟩
      have := hok.2 ⟨h.interpreted, d, h.saved⟩
      rw [hrun] at this
      cases this
  · rw [hrun] at hok hafter
    have haccounts : g.Accounts o t (o.scripts t) := hafter rfl
    have hderived : g.derived = o.derived t := haccounts.derived
    rw [generate_of_ok hfits.directory hrun]
    constructor
    · rintro ⟨h, ht'⟩
      obtain ⟨outcome, houtcome, rfl⟩ := map_eq_ok.1 h
      have hmanifest := writeManifest_iff.1 ⟨houtcome, ht'⟩
      rw [hderived] at hmanifest
      exact ⟨g.tree, (hok.1 rfl).1, haccounts.tree, hmanifest, rfl, haccounts.documents,
        haccounts.reloadEntries⟩
    · rintro ⟨d, h⟩
      -- saving is a function, so the tree with all documents is the one the run has
      obtain rfl : g.tree = d := Except.ok.inj (haccounts.tree.symm.trans h.saved)
      obtain ⟨houtcome, ht'⟩ := writeManifest_iff.2 (hderived ▸ h.manifest)
      refine ⟨?_, ht'⟩
      rw [houtcome, haccounts.documents, haccounts.reloadEntries]
      obtain ⟨scripts, documents, reloadEntries, manifest⟩ := s
      obtain rfl := h.scripts
      obtain rfl := h.documents
      obtain rfl := h.reloadEntries
      rfl

/-! ## A small tree -/

def sampleOptions : GenerateOptions :=
  ⟨"src", "target", "groovy", false, .default⟩

def sampleTree (name : String) : FileTree :=
  ((FileTree.bare []).put ["src"] .directory).put ["src", name]
    (.file "@Bootstrap(reload=true)@Updater(name='A')class A{}".toUTF8)

end UpdaterBootstrap
