import UpdaterBootstrap.Proofs.SettingFields
import UpdaterBootstrap.Proofs.TomlDecimals
import UpdaterBootstrap.Settings.Toml

/-!
# Settings read back

Settings are written as one line for each value, which is read back as that value. The settings are
read back from the lines (`Settings.read_write`).
-/

namespace UpdaterBootstrap

namespace SettingKey

def written : (key : SettingKey) → key.Value → String
  | .sourceDir, text | .targetDir, text | .extension, text | .logFile, text => Toml.writeText text
  | .keepLineCount, b => writeBoolean b
  | .actionKey, x => writeFloat .settings x

def toToml : (key : SettingKey) → key.Value → Toml
  | .sourceDir, text | .targetDir, text | .extension, text | .logFile, text => .text text
  | .keepLineCount, b => .boolean b
  | .actionKey, x => .decimal x

def ofToml? : (key : SettingKey) → Toml → Option key.Value
  | .sourceDir | .targetDir | .extension | .logFile => Settings.text?
  | .keepLineCount => Settings.boolean?
  | .actionKey => Settings.decimal?

theorem ofToml?_toToml (key : SettingKey) (v : key.Value) : key.ofToml? (key.toToml v) = some v := by
  cases key <;> rfl

def keyLine (key : SettingKey) (v : key.Value) : Toml.KeyLine :=
  ⟨key.name, key.toToml v, (key.written v).toList⟩

end SettingKey

namespace Settings

def keyLine? (s : Settings) (key : SettingKey) : Option Toml.KeyLine :=
  (s.field key).map key.keyLine

theorem line?_eq (s : Settings) (key : SettingKey) :
    s.line? key = (s.keyLine? key).map fun l => .ofList l.chars := by
  have hline (v : key.Value) :
      key.name ++ " = " ++ key.written v ++ "\n" = .ofList (key.keyLine v).chars := by
    apply String.toList_inj.1
    simp [SettingKey.keyLine, Toml.KeyLine.chars]
  have hvalue : s.line? key = (s.field key).map fun v => key.name ++ " = " ++ key.written v ++ "\n" := by
    cases key <;> simp only [line?, Option.map_map] <;> rfl
  rw [hvalue, keyLine?, Option.map_map]
  exact congrArg (fun f => (s.field key).map f) (funext hline)

def keyLines (s : Settings) : List Toml.KeyLine :=
  SettingKey.all.filterMap s.keyLine?

theorem write_eq (s : Settings) : s.write = .ofList (s.keyLines.flatMap Toml.KeyLine.chars) := by
  apply String.toList_inj.1
  rw [write, String.toList_join, String.toList_ofList, keyLines]
  induction SettingKey.all with
  | nil => rfl
  | cons key keys ih =>
    rw [List.filterMap_cons, List.filterMap_cons, line?_eq]
    cases s.keyLine? key <;> simp [ih]

theorem key_of_keyLine? {s : Settings} {key : SettingKey} {l : Toml.KeyLine} (h : s.keyLine? key = some l) :
    l.key = key.name := by
  obtain ⟨v, -, rfl⟩ := Option.map_eq_some_iff.1 h
  rfl

theorem nodup_keys (s : Settings) : (s.keyLines.map Toml.KeyLine.key).Nodup := by
  have hsublist : (s.keyLines.map Toml.KeyLine.key).Sublist (SettingKey.all.map SettingKey.name) := by
    unfold keyLines
    induction SettingKey.all with
    | nil => simp
    | cons key keys ih =>
      rw [List.filterMap_cons]
      cases h : s.keyLine? key with
      | none => exact ih.cons _
      | some l => simpa [key_of_keyLine? h] using ih
  exact hsublist.nodup SettingKey.nodup_names

theorem lookup_filterMap (s : Settings) (key : SettingKey) (keys : List SettingKey) :
    ((keys.filterMap s.keyLine?).map Toml.KeyLine.entry).lookup key.name =
      if key ∈ keys then (s.field key).map key.toToml else .none := by
  induction keys with
  | nil => rfl
  | cons other keys ih =>
    rw [List.filterMap_cons]
    by_cases h : key = other
    · subst h
      cases hfield : s.field key with
      | none => simpa [keyLine?, hfield] using ih
      | some v => simp [keyLine?, hfield, SettingKey.keyLine, Toml.KeyLine.entry]
    · have hname : key.name ≠ other.name := fun heq => h (SettingKey.name_injective heq)
      cases hline : s.keyLine? other with
      | none => simpa [h] using ih
      | some l =>
        have hl : (key.name == l.key) = false := beq_false_of_ne (key_of_keyLine? hline ▸ hname)
        simpa [h, Toml.KeyLine.entry, List.lookup_cons, hl] using ih

theorem lookup_entries (s : Settings) (key : SettingKey) :
    (s.keyLines.map Toml.KeyLine.entry).lookup key.name = (s.field key).map key.toToml := by
  rw [keyLines, lookup_filterMap, if_pos key.mem_all]

/-- Entries with what settings hold under the names of the keys are those settings. -/
theorem ofEntries?_eq {s : Settings} {es : List (String × Toml)}
    (h : ∀ key : SettingKey, es.lookup key.name = (s.field key).map key.toToml) : ofEntries? es = some s := by
  have hfield (key : SettingKey) : field? key.ofToml? key es = some (s.field key) := by
    rw [field?, h]
    cases s.field key with
    | none => rfl
    | some v => exact congrArg (Option.map some) (key.ofToml?_toToml v)
  have hsource : field? text? .sourceDir es = some s.sourceDir? := hfield .sourceDir
  have htarget : field? text? .targetDir es = some s.targetDir? := hfield .targetDir
  have hextension : field? text? .extension es = some s.extension? := hfield .extension
  have hkeep : field? boolean? .keepLineCount es = some s.keepLineCount? := hfield .keepLineCount
  have hlog : field? text? .logFile es = some s.logFile? := hfield .logFile
  have hkey : field? decimal? .actionKey es = some s.actionKey? := hfield .actionKey
  simp [ofEntries?, hsource, htarget, hextension, hkeep, hlog, hkey]

/-! ## Each value -/

theorem bare_name (key : SettingKey) :
    key.name.toList.isEmpty = false ∧ key.name.toList.all Toml.isBareKey = true := by
  cases key <;> exact ⟨rfl, rfl⟩

theorem isWritten_boolean (b : Bool) : Toml.IsWritten (.boolean b) (writeBoolean b).toList := by
  cases b <;> exact Toml.isWritten_word rfl rfl rfl

theorem isReadable_keyLine (key : SettingKey) (v : key.Value) : (key.keyLine v).IsReadable where
  nonempty := List.isEmpty_eq_false_iff.1 (bare_name key).1
  bare := List.all_eq_true.1 (bare_name key).2
  written := by
    cases key with
    | sourceDir | targetDir | extension | logFile => exact Toml.isWritten_text v
    | keepLineCount => exact isWritten_boolean v
    | actionKey => exact Toml.isWritten_decimal v

/-- Settings are read back from what is written for them. -/
theorem read_write (s : Settings) : read s.write = .ok s := by
  have hreadable : ∀ l ∈ s.keyLines, l.IsReadable := by
    intro l hl
    obtain ⟨key, -, hkey⟩ := List.mem_filterMap.1 hl
    obtain ⟨v, -, rfl⟩ := Option.map_eq_some_iff.1 hkey
    exact isReadable_keyLine key v
  rw [read, write_eq, Toml.read_lines hreadable s.nodup_keys, Option.bind_some,
    ofEntries?_eq s.lookup_entries]

end Settings

end UpdaterBootstrap
