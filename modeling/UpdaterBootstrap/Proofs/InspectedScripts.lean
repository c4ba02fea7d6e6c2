import UpdaterBootstrap.CommandLine.Run
import UpdaterBootstrap.Proofs.ChosenOptions
import UpdaterBootstrap.Proofs.Completion

/-!
# What an inspection shows of a generation

An inspection of a script shows a document if and only if a generation builds the script, and then with
the same text. The node to reload that it shows is the one of the entry that a generation adds, unless
the script is excluded: then the inspection shows the node, but nothing is built and no entry is added
(`inspection_generation`).
-/

namespace UpdaterBootstrap

/-! ## Interpretations do not depend on the path -/

/-- The path of a script stands in the fault of its updater name only. -/
theorem Interpreter.toOption_interpretFile (i : Interpreter) (path path' : String)
    (content : Except FileFault String) :
    (i.interpretFile path content).1.toOption = (i.interpretFile path' content).1.toOption := by
  cases content with
  | error fault => rfl
  | ok content =>
    rw [interpretFile, interpretFile, interpret, interpret, interpretText, interpretText]
    generalize extract (normalizeLines content) i.keepLineCount = excerpt
    dsimp only
    split
    · rfl
    · generalize (i.history.forget.parse excerpt.unit.render).1 = unit
      cases unit with
      | error e => rfl
      | ok unit =>
        unfold outcome
        dsimp only
        rcases ClassModel.ofUnit i.namespaces unit excerpt.strippedBody
          with (fault | ⟨name, fault⟩) | m <;> rfl

/-! ## Options -/

theorem exists_options {flags : GenerateFlags} {settings : Settings}
    (hfinite : isFinite settings.actionKey = true) (hflag : flags.actionKey? = none) :
    ∃ o, flags.options settings = .ok o ∧ SequenceKey.ofFloat? settings.actionKey = some o.actionKey ∧
      o.keepLineCount = (flags.keepLineCount || settings.keepLineCount) := by
  obtain ⟨key, hkey⟩ := SequenceKey.exists_ofFloat?.2 hfinite
  have heffective : flags.effectiveKey settings = settings.actionKey := by
    rw [GenerateFlags.effectiveKey, hflag]
    rfl
  refine ⟨flags.chosen settings key, GenerateFlags.options_eq_ok.2 ⟨hfinite, key, ?_, rfl⟩, hkey, ?_⟩
  · rw [heffective, hkey]
  · simp [GenerateFlags.chosen, Settings.keepLineCount]

/-! ## Inspections -/

theorem ClassModel.isValid_of_reloadPath? (m : ClassModel) {p : String} (h : m.reloadPath? = some p) :
    m.isValid = true := by
  unfold reloadPath? at h
  split at h
  · rename_i hreload
    exact (Bool.and_eq_true_iff.1 hreload).2
  · cases h

namespace CommandRun

/-- What an inspection of a file has to show, unless the updater name is not valid. -/
def inspection (t : FileTree) (settings : Settings) (file : String) (keep : Bool) :
    Except InvalidUpdaterName Inspection :=
  ((Interpreter.new (keep || settings.keepLineCount)).interpretFile (t.absolutePath file) (t.read file)).1.map
    (Inspection.of file ((SequenceKey.ofFloat? settings.actionKey).getD .default))

theorem inspect_eq (r : CommandRun) (settings : Settings) (file : String) (json keep : Bool) :
    r.inspect settings file json keep =
      let r := r.tell (·.debug ("Inspecting " ++ file))
      match inspection r.tree settings file keep with
      | .error e => r.fail ["Failed to inspect " ++ file, e.message, e.fault.message]
      | .ok i => (r.tell (·.print (if json then i.report.write ++ "\n" else i.summary))).done := by
  unfold CommandRun.inspect inspection
  dsimp only
  generalize (Interpreter.interpretFile _ _ _).1 = result
  cases result <;> rfl

end CommandRun

namespace Inspection

def actionKey? : Inspection → Option SequenceKey
  | .model _ _ key => some key
  | .skipped .. => none

end Inspection

section
variable {o : GenerateOptions} {t : FileTree} {s : FoundScript}

/-- An inspection shows what a script is interpreted as when it is the only one. -/
theorem toOption_inspection {settings : Settings} {file : String} {keep : Bool}
    (hlocate : t.locate file = .ok s.location) (hkeep : (keep || settings.keepLineCount) = o.keepLineCount)
    (hkey : SequenceKey.ofFloat? settings.actionKey = some o.actionKey) :
    (CommandRun.inspection t settings file keep).toOption =
      (o.interpretation t s).toOption.map (Inspection.of file o.actionKey) := by
  have hread : t.read file = t.readAt s.location := by
    unfold FileTree.read
    rw [hlocate]
    rfl
  unfold CommandRun.inspection GenerateOptions.interpretation
  rw [hread, hkeep, hkey, (Interpreter.new o.keepLineCount).toOption_interpretFile
    (t.absolutePath s.path) (t.absolutePath file)]
  cases ((Interpreter.new o.keepLineCount).interpretFile (t.absolutePath file)
    (t.readAt s.location)).1 <;> rfl

/-- A script is built by any interpreter of a run as by a new one. -/
theorem toOption_build (o : GenerateOptions) (t : FileTree) (s : FoundScript) (h : UnitHistory) :
    (((o.interpreter h).build o.sourceDir s.path (t.absolutePath s.path) o.actionKey
      (t.readAt s.location)).1.toOption).join = o.built? t s := by
  obtain ⟨h', hbuild⟩ := o.build_interpreter t s h
  rw [hbuild]
  cases hx : o.interpretation t s with
  | error e =>
    unfold GenerateOptions.built? GenerateOptions.class?
    rw [hx]
    rfl
  | ok x => rfl

section
variable {names : List String} (hs : s.IsAt t o.sourceDir o.extension names) (hsource : o.sourceDir ≠ "")
include hs hsource

/-- A class is built if and only if it has a document. -/
theorem build?_eq_map (m : ClassModel) :
    m.build? o.sourceDir s.path o.actionKey = m.document?.map fun d =>
      ⟨s.path, d, "/".intercalate (Path.withExtension "yaml" names), m.reloadPath?, o.actionKey⟩ := by
  unfold ClassModel.build?
  rw [hs.documentName? hsource]
  cases m.document? <;> rfl

theorem document?_of_interpretation (file : String) (key : SequenceKey) :
    ((o.interpretation t s).toOption.map (Inspection.of file key)).bind Inspection.document? =
      (o.built? t s).map fun b => b.document.write := by
  unfold GenerateOptions.built? GenerateOptions.class?
  rcases o.interpretation t s with e | (m | reason)
  · rfl
  · dsimp only [Except.toOption, Option.map_some, Option.bind_some]
    rw [build?_eq_map hs hsource, Option.map_map]
    rfl
  · rfl

/-- Of what is built, the node to reload is the one that is shown. -/
theorem reloadPath?_of_interpretation (file : String) (key : SequenceKey) (p : String) :
    let shown := (o.interpretation t s).toOption.map (Inspection.of file key)
    (o.built? t s).bind BuiltScript.reloadPath? = some p ↔
      (shown.bind Inspection.document?).isSome ∧ shown.bind Inspection.reloadPath? = some p := by
  dsimp only
  unfold GenerateOptions.built? GenerateOptions.class?
  rcases o.interpretation t s with e | (m | reason)
  · exact ⟨nofun, nofun⟩
  · dsimp only [Except.toOption, Option.map_some, Option.bind_some, Inspection.of, Inspection.document?,
      Inspection.reloadPath?]
    rw [build?_eq_map hs hsource]
    cases m.document? with
    | none => exact ⟨nofun, nofun⟩
    | some d => exact ⟨fun h => ⟨rfl, h⟩, And.right⟩
  · exact ⟨nofun, nofun⟩

/-- Only an excluded class can be shown with a node that is not reloaded. -/
theorem reloadPath?_eq_iff (file : String) (key : SequenceKey) :
    let shown := (o.interpretation t s).toOption.map (Inspection.of file key)
    (∀ p, shown.bind Inspection.reloadPath? = some p ↔ (o.built? t s).bind BuiltScript.reloadPath? = some p) ↔
      ∀ m, o.class? t s = some m → m.isExcluded = true → m.reloadPath? = none := by
  have hreload := reloadPath?_of_interpretation hs hsource file key
  dsimp only at hreload ⊢
  simp only [hreload]
  unfold GenerateOptions.class?
  rcases o.interpretation t s with e | (m | reason)
  · exact ⟨fun _ => nofun, fun _ _ => ⟨nofun, And.right⟩⟩
  · dsimp only [Except.toOption, Option.map_some, Option.bind_some, Inspection.of, Inspection.document?,
      Inspection.reloadPath?]
    rw [Option.isSome_map]
    constructor
    · intro h m' hm hexcluded
      obtain rfl := Option.some.inj hm
      refine Option.eq_none_iff_forall_ne_some.2 fun p hp => ?_
      -- a node that is reloaded has a document, and an excluded class has none
      obtain ⟨d, hd⟩ := Option.isSome_iff_exists.1 ((h p).1 hp).1
      rw [(ClassModel.document?_eq_some.1 hd).1.2] at hexcluded
      cases hexcluded
    · intro h p
      refine ⟨fun hp => ⟨?_, hp⟩, And.right⟩
      have hincluded : m.isExcluded = false := by
        cases hexcluded : m.isExcluded with
        | false => rfl
        | true =>
          rw [h m rfl hexcluded] at hp
          cases hp
      exact Option.isSome_iff_exists.2 ⟨_,
        ClassModel.document?_eq_some.2 ⟨⟨m.isValid_of_reloadPath? hp, hincluded⟩, rfl⟩⟩
  · exact ⟨fun _ => nofun, fun _ _ => ⟨nofun, And.right⟩⟩

end

/-! ## A run over one script -/

namespace GenerateOptions

def runOver (o : GenerateOptions) (t : FileTree) (s : FoundScript) : Except GenerateFault Unit × Generation :=
  (Generation.begin t o.keepLineCount).processScripts o [s]

end GenerateOptions

theorem derived_runOver (hok : (o.runOver t s).1 = .ok ()) :
    (o.runOver t s).2.derived =
      .reloads o.actionKey ((o.built? t s).bind BuiltScript.reloadPath?).toList := by
  obtain ⟨history, hbuild⟩ := o.build_interpreter t s .empty
  obtain ⟨-, hafter⟩ := (Generation.accounts_begin o t).processScript_of_build hbuild
  have hpaths : (o.built t [s]).filterMap BuiltScript.reloadPath? =
      ((o.built? t s).bind BuiltScript.reloadPath?).toList := by
    unfold GenerateOptions.built
    cases hb : o.built? t s with
    | none => rw [List.filterMap_cons_none hb]; rfl
    | some b =>
      rw [List.filterMap_cons_some hb]
      cases hreload : b.reloadPath? with
      | none => rw [List.filterMap_nil, List.filterMap_cons_none hreload, Option.bind_some, hreload]; rfl
      | some p => rw [List.filterMap_nil, List.filterMap_cons_some hreload, Option.bind_some, hreload]; rfl
  unfold GenerateOptions.runOver at hok ⊢
  rw [Generation.processScripts] at hok ⊢
  rcases hstep : (Generation.begin t o.keepLineCount).processScript o s with ⟨fault | ⟨⟩, g⟩
  · rw [hstep] at hok
    cases hok
  · rw [hstep] at hafter
    rw [← hpaths]
    exact (hafter rfl).derived

/-- A run over one script adds at most one entry, for the node of what is built. -/
theorem action?_runOver (hok : (o.runOver t s).1 = .ok ()) (key : SequenceKey) (p : String) :
    ActionList.action? (o.runOver t s).2.derived key p = some .reload ↔
      key = o.actionKey ∧ (o.built? t s).bind BuiltScript.reloadPath? = some p := by
  have hmem : p ∈ ((o.built? t s).bind BuiltScript.reloadPath?).toList ↔
      (o.built? t s).bind BuiltScript.reloadPath? = some p := Option.mem_toList
  rw [derived_runOver hok, ActionList.action?_reloads, ← hmem]
  split
  · rename_i h
    exact ⟨fun _ => h, fun _ => rfl⟩
  · rename_i h
    exact ⟨nofun, fun h' => absurd h' h⟩

end

/-- What an inspection of a script shows, and what a generation under the same settings does with
the script: the document is that of the script that is built, and the entry added is for the node
shown, under the key shown, if a document is shown as well. So the two agree on the entry unless an
excluded class asks for a reload. -/
theorem inspection_generation (flags : GenerateFlags) (settings : Settings)
    (hfinite : isFinite settings.actionKey = true) (hflag : flags.actionKey? = none) :
    ∃ o, flags.options settings = .ok o ∧ ∀ {t : FileTree} {s : FoundScript} {file : String} {keep : Bool},
      t.isDirectory o.sourceDir = true → t.HasFileNames (t.place o.sourceDir) → s ∈ o.scripts t →
      t.locate file = .ok s.location → (keep || settings.keepLineCount) = o.keepLineCount →
      let shown := (CommandRun.inspection t settings file keep).toOption
      let document? := shown.bind Inspection.document?
      let reloadPath? := shown.bind Inspection.reloadPath?
      (∀ key ∈ shown.bind Inspection.actionKey?, key = o.actionKey) ∧
      (∀ h, (((o.interpreter h).build o.sourceDir s.path (t.absolutePath s.path) o.actionKey
        (t.readAt s.location)).1.toOption).join.map (fun b => b.document.write) = document?) ∧
      ((o.runOver t s).1 = .ok () →
        (∀ key p, ActionList.action? (o.runOver t s).2.derived key p = some .reload ↔
          key = o.actionKey ∧ document?.isSome ∧ reloadPath? = some p) ∧
        ((∀ p, reloadPath? = some p ↔
          ActionList.action? (o.runOver t s).2.derived o.actionKey p = some .reload) ↔
          ∀ m, o.class? t s = some m → m.isExcluded = true → m.reloadPath? = none)) := by
  obtain ⟨o, hoptions, hkey, -⟩ := exists_options hfinite hflag
  refine ⟨o, hoptions, ?_⟩
  intro t s file keep hdirectory hnames hs hlocate hkeep
  obtain ⟨names, hs⟩ := exists_isAt_of_mem hdirectory hnames hs
  have hsource := ne_empty_of_isDirectory hdirectory
  dsimp only
  rw [toOption_inspection hlocate hkeep hkey]
  refine ⟨?_, fun h => ?_, fun hok => ⟨fun key p => ?_, ?_⟩⟩
  · intro key hshown
    rcases hx : o.interpretation t s with e | (m | reason) <;> rw [hx] at hshown <;> cases hshown
    rfl
  · rw [toOption_build, document?_of_interpretation hs hsource]
  · exact (action?_runOver hok key p).trans
      (and_congr_right fun _ => reloadPath?_of_interpretation hs hsource file o.actionKey p)
  · simp only [action?_runOver hok, true_and]
    exact reloadPath?_eq_iff hs hsource file o.actionKey

/-! ## A script that asks for a reload -/

def sampleSettings : Settings :=
  { Settings.none with sourceDir? := some "src", targetDir? := some "target" }

theorem inspection_generation_sample :
    let t := sampleTree "A.groovy"
    let s : FoundScript := ⟨"src/A.groovy", ["src", "A.groovy"]⟩
    (sampleOptions.class? t s).bind ClassModel.reloadPath? =
      some "/hippo:configuration/hippo:update/hippo:queue/A" ∧
      ∀ p, (CommandRun.inspection t sampleSettings "src/A.groovy" false).toOption.bind
        Inspection.reloadPath? = some p ↔
        ActionList.action? (sampleOptions.runOver t s).2.derived .default p = some .reload := by
  intro t s
  obtain ⟨o, hoptions, hagree⟩ :=
    inspection_generation ⟨none, none, none, false, none⟩ sampleSettings (by decide) rfl
  obtain rfl : sampleOptions = o := Except.ok.inj hoptions
  have hs : s ∈ sampleOptions.scripts t := by decide +kernel
  have hlocate : t.locate "src/A.groovy" = .ok s.location := eq_ok_of_toOption (by decide +kernel)
  have hkeep : (false || sampleSettings.keepLineCount) = sampleOptions.keepLineCount := rfl
  have hrun : (sampleOptions.runOver t s).1 = .ok () := eq_ok_of_toOption (by decide +kernel)
  obtain ⟨-, -, hreload⟩ := hagree (by decide +kernel) (by decide +kernel) hs hlocate hkeep
  obtain ⟨m, hm, hincluded, hpath⟩ : ∃ m, sampleOptions.class? t s = some m ∧ m.isExcluded = false ∧
      m.reloadPath? = some "/hippo:configuration/hippo:update/hippo:queue/A" := by
    have hfound : (sampleOptions.class? t s).map (fun m => (m.isExcluded, m.reloadPath?)) =
        some (false, some "/hippo:configuration/hippo:update/hippo:queue/A") := by decide +kernel
    obtain ⟨m, hm, hpair⟩ := Option.map_eq_some_iff.1 hfound
    exact ⟨m, hm, congrArg Prod.fst hpair, congrArg Prod.snd hpair⟩
  refine ⟨by rw [hm, Option.bind_some, hpath], (hreload hrun).2.2 fun m' hm' hexcluded => ?_⟩
  obtain rfl := Option.some.inj (hm.symm.trans hm')
  rw [hincluded] at hexcluded
  cases hexcluded

/-- An excluded script is shown with a node to reload, though a run over it adds no entry. -/
theorem excluded_shows_reload :
    let t := ((FileTree.bare []).put ["src"] .directory).put ["src", "A.groovy"]
      (.file "@Bootstrap(reload=true,exclude=true)@Updater(name='A')class A\x7b\x7d".toUTF8)
    let s : FoundScript := ⟨"src/A.groovy", ["src", "A.groovy"]⟩
    (CommandRun.inspection t sampleSettings s.path false).toOption.map
      (fun i => (i.reloadPath?, i.document?)) =
        some (some "/hippo:configuration/hippo:update/hippo:queue/A", none) ∧
      sampleOptions.scripts t = [s] ∧ (sampleOptions.runOver t s).1.toOption = some () ∧
      (sampleOptions.runOver t s).2.derived = [] := by
  intro t s
  have hboth : (sampleOptions.runOver t s).1.toOption = some () ∧
      (sampleOptions.runOver t s).2.derived = [] := by
    decide +kernel
  exact ⟨by decide +kernel, by decide +kernel, hboth.1, hboth.2⟩

end UpdaterBootstrap
