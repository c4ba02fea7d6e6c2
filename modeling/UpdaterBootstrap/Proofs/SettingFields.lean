import Mathlib.Data.List.Basic
import Mathlib.Data.List.TakeWhile
import UpdaterBootstrap.Settings.Basic

/-!
# Settings by key

Settings hold one value for each key at most, of a type of its own (`SettingKey.Value`), and are
what they hold (`Settings.ext_field`). Setting a key to a text succeeds exactly if the text means a
value for the key, and changes that key alone (`Settings.set?_eq_some_iff`).
-/

namespace UpdaterBootstrap

/-! ## Keys -/

namespace SettingKey

theorem mem_all (key : SettingKey) : key ∈ all := by
  cases key <;> decide

theorem nodup_names : (all.map name).Nodup := by
  decide

theorem name_injective {key other : SettingKey} (h : key.name = other.name) : key = other := by
  cases key <;> cases other <;> first | rfl | exact absurd h (by decide)

theorem ofName?_eq_none {name : String} : ofName? name = none ↔ ∀ key : SettingKey, key.name ≠ name := by
  unfold ofName?
  rw [List.find?_eq_none]
  exact ⟨fun h key heq => h key (mem_all key) (beq_iff_eq.2 heq), fun h key _ heq => h key (beq_iff_eq.1 heq)⟩

theorem eq_of_ofName? {text : String} {key : SettingKey} (h : ofName? text = some key) : key.name = text :=
  beq_iff_eq.1 (List.find?_some (p := fun k : SettingKey => k.name == text) h)

abbrev Value : SettingKey → Type
  | .keepLineCount => Bool
  | .actionKey => Float
  | _ => String

def shown : (key : SettingKey) → key.Value → String
  | .sourceDir, text | .targetDir, text | .extension, text | .logFile, text => text
  | .keepLineCount, b => writeBoolean b
  | .actionKey, x => writeFloat .plain x

inductive Means : (key : SettingKey) → String → key.Value → Prop
  | sourceDir (text : String) : Means .sourceDir text text
  | targetDir (text : String) : Means .targetDir text text
  /-- The dots in front of an extension do not belong to it. -/
  | extension {text ext : String} {dots : List Char} (hdots : ∀ c ∈ dots, c = '.')
      (hext : ext.toList.head? ≠ some '.') (htext : text.toList = dots ++ ext.toList) :
      Means .extension text ext
  | keep : Means .keepLineCount "true" true
  | leave : Means .keepLineCount "false" false
  | logFile (text : String) : Means .logFile text text
  | actionKey {text : String} {x : Float} (hread : readFloat? text = some x) (hfinite : isFinite x = true) :
      Means .actionKey text x

inductive Refuses : SettingKey → String → Prop
  | keepLineCount {text : String} (htrue : text ≠ "true") (hfalse : text ≠ "false") :
      Refuses .keepLineCount text
  | actionKey {text : String} (h : ∀ x, readFloat? text = some x → isFinite x = false) :
      Refuses .actionKey text

theorem means_extension {text ext : String} : Means .extension text ext ↔ ext = bareExtension text := by
  constructor
  · intro h
    cases h with
    | @extension _ _ dots hdots hext htext =>
      have hstart : ext.toList.dropWhile (· == '.') = ext.toList := by
        cases hlist : ext.toList with
        | nil => rfl
        | cons c cs =>
          rw [hlist] at hext
          exact List.dropWhile_cons_of_neg fun hc => hext (congrArg some (beq_iff_eq.1 hc))
      rw [bareExtension, htext, List.dropWhile_append_of_pos fun c hc => beq_iff_eq.2 (hdots c hc), hstart,
        String.ofList_toList]
  · rintro rfl
    have hlist : (bareExtension text).toList = text.toList.dropWhile (· == '.') := by
      rw [bareExtension, String.toList_ofList]
    refine .extension (fun c hc => beq_iff_eq.1 (List.mem_takeWhile_imp (p := (· == '.')) hc))
      (fun hdot => ?_)
      (hlist ▸ List.takeWhile_append_dropWhile.symm)
    have := List.head?_dropWhile_not (· == '.') text.toList
    rw [← hlist, hdot] at this
    cases this

theorem means_or_refuses (key : SettingKey) (text : String) : (∃ v, key.Means text v) ∨ key.Refuses text := by
  cases key with
  | sourceDir => exact .inl ⟨_, .sourceDir text⟩
  | targetDir => exact .inl ⟨_, .targetDir text⟩
  | extension => exact .inl ⟨_, means_extension.2 rfl⟩
  | keepLineCount =>
    by_cases htrue : text = "true"
    · exact .inl ⟨true, htrue ▸ .keep⟩
    · by_cases hfalse : text = "false"
      · exact .inl ⟨false, hfalse ▸ .leave⟩
      · exact .inr (.keepLineCount htrue hfalse)
  | logFile => exact .inl ⟨_, .logFile text⟩
  | actionKey =>
    by_cases h : ∃ x, readFloat? text = some x ∧ isFinite x = true
    · obtain ⟨x, hread, hfinite⟩ := h
      exact .inl ⟨x, .actionKey hread hfinite⟩
    · exact .inr (.actionKey fun x hread => Bool.eq_false_iff.2 fun hfinite => h ⟨x, hread, hfinite⟩)

end SettingKey

/-! ## Fields -/

namespace Settings

def field (s : Settings) : (key : SettingKey) → Option key.Value
  | .sourceDir => s.sourceDir?
  | .targetDir => s.targetDir?
  | .extension => s.extension?
  | .keepLineCount => s.keepLineCount?
  | .logFile => s.logFile?
  | .actionKey => s.actionKey?

/-- Settings are what they hold for each key. -/
theorem ext_field {s s' : Settings} (h : ∀ key, s.field key = s'.field key) : s = s' := by
  obtain ⟨a, b, c, d, e, f⟩ := s
  obtain ⟨a', b', c', d', e', f'⟩ := s'
  obtain rfl : a = a' := h .sourceDir
  obtain rfl : b = b' := h .targetDir
  obtain rfl : c = c' := h .extension
  obtain rfl : d = d' := h .keepLineCount
  obtain rfl : e = e' := h .logFile
  obtain rfl : f = f' := h .actionKey
  rfl

def hold (s : Settings) : (key : SettingKey) → key.Value → Settings
  | .sourceDir, v => { s with sourceDir? := some v }
  | .targetDir, v => { s with targetDir? := some v }
  | .extension, v => { s with extension? := some v }
  | .keepLineCount, v => { s with keepLineCount? := some v }
  | .logFile, v => { s with logFile? := some v }
  | .actionKey, v => { s with actionKey? := some v }

theorem field_hold_self (s : Settings) (key : SettingKey) (v : key.Value) :
    (s.hold key v).field key = some v := by
  cases key <;> rfl

theorem field_hold_ne (s : Settings) {key other : SettingKey} (v : key.Value) (h : other ≠ key) :
    (s.hold key v).field other = s.field other := by
  cases key <;> cases other <;> first | rfl | exact absurd rfl h

theorem set?_of_means (s : Settings) {key : SettingKey} {text : String} {v : key.Value}
    (h : key.Means text v) :
    s.set? key text = some (s.hold key v) := by
  cases h with
  | sourceDir | targetDir | keep | leave | logFile => rfl
  | extension hdots hext htext =>
    obtain rfl := SettingKey.means_extension.1 (.extension hdots hext htext)
    rfl
  | actionKey hread hfinite =>
    rw [set?, hread, Option.filter_some, if_pos hfinite]
    rfl

theorem set?_of_refuses (s : Settings) {key : SettingKey} {text : String} (h : key.Refuses text) :
    s.set? key text = .none := by
  cases h with
  | keepLineCount htrue hfalse =>
    rw [set?, readBoolean?, if_neg (mt beq_iff_eq.1 htrue), if_neg (mt beq_iff_eq.1 hfalse)]
    rfl
  | actionKey h =>
    rw [set?, Option.map_eq_none_iff, Option.filter_eq_none_iff]
    exact fun x hread hfinite => Bool.false_ne_true ((h x hread).symm.trans hfinite)

/-- A key is set exactly if the text means a value, and then it has that value. -/
theorem set?_eq_some_iff {s s' : Settings} {key : SettingKey} {text : String} :
    s.set? key text = some s' ↔ ∃ v, key.Means text v ∧ s' = s.hold key v := by
  refine ⟨fun h => ?_, fun ⟨v, hmeans, heq⟩ => heq ▸ s.set?_of_means hmeans⟩
  rcases key.means_or_refuses text with ⟨v, hmeans⟩ | hrefuses
  · exact ⟨v, hmeans, Option.some.inj (h.symm.trans (s.set?_of_means hmeans))⟩
  · cases (s.set?_of_refuses hrefuses).symm.trans h

theorem set?_eq_none_iff {s : Settings} {key : SettingKey} {text : String} :
    s.set? key text = .none ↔ key.Refuses text := by
  refine ⟨fun h => ?_, s.set?_of_refuses⟩
  rcases key.means_or_refuses text with ⟨v, hmeans⟩ | hrefuses
  · cases (s.set?_of_means hmeans).symm.trans h
  · exact hrefuses

/-! ## Values as texts -/

theorem get?_eq (s : Settings) (key : SettingKey) : s.get? key = (s.field key).map key.shown := by
  cases key <;> first | rfl | exact Option.map_id'.symm

/-- Only the key that is set is looked up with another result. -/
theorem lookup_hold (s : Settings) {key : SettingKey} (v : key.Value) {text : String} (h : text ≠ key.name) :
    (s.hold key v).lookup text = s.lookup text := by
  unfold lookup
  cases hkey : SettingKey.ofName? text with
  | none => rfl
  | some other =>
    have hne : other ≠ key := fun heq => h (heq ▸ SettingKey.eq_of_ofName? hkey).symm
    dsimp only
    rw [get?_eq, get?_eq, field_hold_ne s v hne]

theorem map_fst_values (s : Settings) :
    s.values.map Prod.fst = SettingKey.all.filter fun key => (s.field key).isSome := by
  unfold values
  rw [List.map_filterMap, ← List.filterMap_eq_filter]
  refine List.filterMap_congr fun key _ => ?_
  rw [get?_eq]
  cases h : s.field key <;> simp [Option.guard, h]

/-- The keys that have a value are listed in the order of all keys, the one that is set with them. -/
theorem keys_hold (s : Settings) {key : SettingKey} (v : key.Value) :
    (s.hold key v).values.map Prod.fst =
      SettingKey.all.filter fun other => other = key ∨ other ∈ s.values.map Prod.fst := by
  rw [map_fst_values, map_fst_values]
  refine List.filter_congr fun other _ => ?_
  by_cases h : other = key
  · subst h
    rw [field_hold_self]
    simp
  · rw [field_hold_ne s v h]
    simp [h, SettingKey.mem_all]

/-- The values of the other keys are listed as before. -/
theorem values_hold (s : Settings) {key : SettingKey} (v : key.Value) :
    (s.hold key v).values.filter (·.1 ≠ key) = s.values.filter (·.1 ≠ key) := by
  unfold values
  rw [List.filter_filterMap, List.filter_filterMap]
  refine List.filterMap_congr fun other _ => ?_
  by_cases h : other = key
  · have hout (text? : Option String) : (text?.map (other, ·)).filter (fun e => e.1 ≠ key) = .none := by
      cases text? <;> simp [h]
    rw [hout, hout]
  · rw [get?_eq, get?_eq, field_hold_ne s v h]

end Settings

end UpdaterBootstrap
