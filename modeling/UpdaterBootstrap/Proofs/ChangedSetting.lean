import UpdaterBootstrap.CommandLine.Run
import UpdaterBootstrap.Proofs.ManifestFiles
import UpdaterBootstrap.Proofs.SettingsText

/-!
# Setting one key

Where the settings are read and files can be saved, setting a key to a text changes the value of
that key in the settings file and nothing else, or is refused and changes nothing at all
(`CommandRun.config_set_spec`).
-/

namespace UpdaterBootstrap

/-! ## Two settings -/

structure Settings.Changed (s : Settings) (key : SettingKey) (v : key.Value) (s' : Settings) : Prop where
  changed : s'.field key = some v
  kept : ∀ other, other ≠ key → s'.field other = s.field other
  lookup : ∀ name, name ≠ key.name → s'.lookup name = s.lookup name
  keys : s'.values.map Prod.fst =
    SettingKey.all.filter fun other => other = key ∨ other ∈ s.values.map Prod.fst
  values : s'.values.filter (·.1 ≠ key) = s.values.filter (·.1 ≠ key)

theorem Settings.changed_hold (s : Settings) (key : SettingKey) (v : key.Value) :
    s.Changed key v (s.hold key v) where
  changed := s.field_hold_self key v
  kept _ h := s.field_hold_ne v h
  lookup _ h := s.lookup_hold v h
  keys := s.keys_hold v
  values := s.values_hold v

inductive SettingRefused (name text : String) : SettingsFault → Prop
  | unknownKey (h : ∀ key : SettingKey, key.name ≠ name) : SettingRefused name text (.unknownKey name)
  | invalidValue {key : SettingKey} (hname : key.name = name) (h : key.Refuses text) :
    SettingRefused name text (.invalidValue name text)

theorem Settings.assign_cases (s : Settings) (name text : String) :
    (∃ fault, SettingRefused name text fault ∧ s.assign name text = .error fault) ∨
      ∃ key v, key.name = name ∧ key.Means text v ∧ s.assign name text = .ok (s.hold key v) := by
  unfold assign
  cases hkey : SettingKey.ofName? name with
  | none => exact .inl ⟨_, .unknownKey (SettingKey.ofName?_eq_none.1 hkey), rfl⟩
  | some key =>
    have hname := SettingKey.eq_of_ofName? hkey
    dsimp only
    cases hset : s.set? key text with
    | none => exact .inl ⟨_, .invalidValue hname (set?_eq_none_iff.1 hset), rfl⟩
    | some s' =>
      obtain ⟨v, hmeans, rfl⟩ := set?_eq_some_iff.1 hset
      exact .inr ⟨key, v, hname, hmeans, rfl⟩

/-! ## The file -/

theorem Settings.load_of_saved {s : Settings} {t t' : FileTree} {path : String}
    (h : t.Saved path s.write t') :
    load t' path = .ok s := by
  rw [load, FileTree.read?_of_file h.locate h.file]
  exact s.read_write

namespace CommandRun

variable {r : CommandRun} {path name text : String} {c : Settings}

theorem setSetting_of_error (hload : Settings.load r.tree path = .ok c) {fault : SettingsFault}
    (h : c.assign name text = .error fault) : r.setSetting path name text = r.fail [fault.message] := by
  rw [setSetting, hload]
  dsimp only
  rw [h]

theorem setSetting_of_ok (hload : Settings.load r.tree path = .ok c) {c' : Settings}
    (h : c.assign name text = .ok c') (hsave : ∀ content, (r.tree.save path content).1 = .ok ()) :
    (r.setSetting path name text).1 = .ok () ∧
      r.tree.Saved path c'.write (r.setSetting path name text).2.tree := by
  obtain ⟨t', ht'⟩ : ∃ t', r.tree.save path c'.write = (.ok (), t') := ⟨_, Prod.ext (hsave _) rfl⟩
  have hsaved : c'.save r.tree path = (.ok (), t') := by
    rw [Settings.save, ht']
    rfl
  rw [setSetting, hload]
  dsimp only
  rw [h]
  dsimp only
  rw [hsaved]
  exact ⟨rfl, FileTree.saved_of_save ht'⟩

/-- Setting a key is refused and changes no file, or changes the value of this key in the settings
file. -/
theorem config_set_spec (r : CommandRun) (s : Surroundings) {name text : String} {c : Settings}
    (hload : Settings.load r.tree (s.settingsPath r.tree) = .ok c)
    (hsave : ∀ content, (r.tree.save (s.settingsPath r.tree) content).1 = .ok ()) :
    (∃ fault, SettingRefused name text fault ∧ (r.config s (.set name text)).1 = .error [fault.message] ∧
      (r.config s (.set name text)).2.tree = r.tree) ∨
    ∃ key v c', key.name = name ∧ key.Means text v ∧ c.Changed key v c' ∧
      (r.config s (.set name text)).1 = .ok () ∧
      r.tree.Saved (s.settingsPath r.tree) c'.write (r.config s (.set name text)).2.tree ∧
      Settings.load (r.config s (.set name text)).2.tree (s.settingsPath r.tree) = .ok c' := by
  -- only a message is told before the setting is changed
  obtain ⟨r', htree, hrun⟩ : ∃ r' : CommandRun,
      r'.tree = r.tree ∧ r.config s (.set name text) = r'.setSetting (s.settingsPath r.tree) name text :=
    ⟨r.tell (·.debug ("Reading config from: " ++ s.settingsPath r.tree)), rfl, rfl⟩
  rw [hrun]
  rw [← htree] at hload hsave ⊢
  rcases c.assign_cases name text with ⟨fault, hrefused, hassign⟩ | ⟨key, v, hname, hmeans, hassign⟩
  · left
    refine ⟨fault, hrefused, ?_⟩
    rw [setSetting_of_error hload hassign]
    exact ⟨rfl, rfl⟩
  · right
    obtain ⟨hdone, hsaved⟩ := setSetting_of_ok hload hassign hsave
    exact ⟨key, v, c.hold key v, hname, hmeans, c.changed_hold key v, hdone, hsaved,
      Settings.load_of_saved hsaved⟩

def sampleRun : CommandRun :=
  ⟨⟨AscendingMap.empty.insert ["hbg.toml"]
    (.file "keep-line-count = true\ndefault-action-key = 0.25\n".toUTF8), []⟩,
    .silent 0⟩

def sampleSurroundings : Surroundings :=
  ⟨none, none, false, ""⟩

def sampleSettings : Settings :=
  { Settings.none with keepLineCount? := some true, actionKey? := some 0.25 }

theorem config_set_extension :
    Settings.load (sampleRun.config sampleSurroundings (.set "extension" ".gvy")).2.tree "hbg.toml" =
      .ok (sampleSettings.hold .extension "gvy") := by
  have hpath : sampleSurroundings.settingsPath sampleRun.tree = "hbg.toml" := by decide +kernel
  have hload : Settings.load sampleRun.tree "hbg.toml" = .ok sampleSettings := by decide +kernel
  have hlocate : sampleRun.tree.locate "hbg.toml" = .ok ["hbg.toml"] := by decide +kernel
  have hentry : sampleRun.tree.entry? ["hbg.toml"] ≠ some .directory := by decide +kernel
  have hsave (content : String) : (sampleRun.tree.save "hbg.toml" content).1 = .ok () := by
    rw [FileTree.save_of_locate hlocate hentry]
  have hspec := @config_set_spec sampleRun sampleSurroundings "extension" ".gvy" sampleSettings
  rw [hpath] at hspec
  rcases hspec hload hsave with ⟨_, hrefused, -⟩ | ⟨key, v, c', hname, hmeans, hchanged, -, -, hloaded⟩
  · cases hrefused with
    | unknownKey h => exact absurd rfl (h .extension)
    | invalidValue hname h =>
      obtain rfl : _ = SettingKey.extension := SettingKey.name_injective hname
      cases h
  · obtain rfl : key = SettingKey.extension := SettingKey.name_injective hname
    obtain rfl : v = "gvy" := (SettingKey.means_extension.1 hmeans).trans (by decide +kernel)
    have hc' : c' = sampleSettings.hold .extension "gvy" := by
      apply Settings.ext_field
      intro other
      by_cases hother : other = .extension
      · subst hother
        exact hchanged.changed
      · exact (hchanged.kept other hother).trans
          ((sampleSettings.changed_hold .extension "gvy").kept other hother).symm
    rw [hloaded, hc']

end CommandRun

end UpdaterBootstrap
