import UpdaterBootstrap.Generation.Options
import UpdaterBootstrap.Proofs.Outcome
import UpdaterBootstrap.Settings.Toml

/-!
# Options under flags and settings

Each option is the flag's value if the flag is given, else the one in the settings, else the
default. The key that counts has to be finite, and so has the one in the settings even where a flag
replaces it (`GenerateFlags.options_spec`): there the flag does not win.
-/

namespace UpdaterBootstrap

/-! ## Finite keys -/

/-- Both zeros are one key. -/
def unsignedZero (x : Float) : Float :=
  if x.toBits = 0x8000000000000000 then 0.0 else x

theorem SequenceKey.ofFloat?_eq_some_iff {x : Float} {key : SequenceKey} :
    ofFloat? x = some key ↔ isFinite x = true ∧ key.value = unsignedZero x := by
  obtain ⟨value, hfinite, hzero⟩ := key
  unfold ofFloat? unsignedZero
  by_cases hx : isFinite x = true
  · by_cases hz : x.toBits = 0x8000000000000000
    · simp [hx, hz, zero, eq_comm]
    · simp [hx, hz, eq_comm]
  · simp [hx]

theorem SequenceKey.exists_ofFloat? {x : Float} : (∃ key, ofFloat? x = some key) ↔ isFinite x = true := by
  constructor
  · intro ⟨key, hkey⟩
    exact (ofFloat?_eq_some_iff.1 hkey).1
  · intro hx
    unfold ofFloat?
    by_cases hz : x.toBits = 0x8000000000000000 <;> simp [hx, hz]

theorem finiteKey_eq_ok {x : Float} {key : SequenceKey} :
    finiteKey x = .ok key ↔ SequenceKey.ofFloat? x = some key := by
  unfold finiteKey
  cases SequenceKey.ofFloat? x <;> simp

/-- The default is finite, so the key under some settings is if the one they hold is. -/
theorem Settings.isFinite_actionKey {s : Settings} :
    isFinite s.actionKey = true ↔ ∀ x ∈ s.actionKey?, isFinite x = true := by
  unfold actionKey
  cases s.actionKey? with
  | none =>
    have hdefault : isFinite 0.1 = true := SequenceKey.default.finite
    simp [hdefault]
  | some x => simp

/-! ## What is chosen -/

namespace GenerateFlags

def effectiveKey (flags : GenerateFlags) (s : Settings) : Float :=
  (flags.actionKey?.or s.actionKey?).getD 0.1

/-- Flags win over settings, settings over defaults. -/
def chosen (flags : GenerateFlags) (s : Settings) (key : SequenceKey) : GenerateOptions where
  sourceDir := (flags.source?.or s.sourceDir?).getD "src/main/groovy"
  targetDir := (flags.target?.or s.targetDir?).getD "target/classes"
  extension := ((flags.extension?.map bareExtension).or s.extension?).getD "groovy"
  keepLineCount := if flags.keepLineCount then true else s.keepLineCount?.getD false
  actionKey := key

variable {flags : GenerateFlags} {s : Settings} {o : GenerateOptions}

/-- The key in the settings is checked, whether it counts or not. -/
theorem options_eq (flags : GenerateFlags) (s : Settings) :
    flags.options s = do
      let _ ← finiteKey s.actionKey
      let key ← finiteKey (flags.effectiveKey s)
      return flags.chosen s key := by
  have hchosen (key : SequenceKey) :
      (⟨flags.source?.getD s.sourceDir, flags.target?.getD s.targetDir,
        (flags.extension?.map bareExtension).getD s.extension, flags.keepLineCount || s.keepLineCount, key⟩ :
        GenerateOptions) = flags.chosen s key := by
    simp [chosen, Option.getD_or, Settings.sourceDir, Settings.targetDir, Settings.extension,
      Settings.keepLineCount]
  unfold options Settings.options effectiveKey
  cases hbase : finiteKey s.actionKey with
  | error e => rfl
  | ok base =>
    cases flags.actionKey? with
    | none =>
      have hkey : finiteKey ((none.or s.actionKey?).getD 0.1) = .ok base := hbase
      rw [hkey]
      exact congrArg Except.ok (hchosen base)
    | some x =>
      rw [Option.some_or, Option.getD_some]
      cases hkey : finiteKey x with
      | error e => simp [hkey, Except.map, bind, Except.bind]
      | ok key => simp [hkey, Except.map, bind, Except.bind, pure, Except.pure, hchosen]

theorem options_eq_ok :
    flags.options s = .ok o ↔
      isFinite s.actionKey = true ∧ ∃ key, SequenceKey.ofFloat? (flags.effectiveKey s) = some key ∧
        flags.chosen s key = o := by
  rw [options_eq, bind_eq_ok]
  constructor
  · intro ⟨base, hbase, h⟩
    obtain ⟨key, hkey, h⟩ := bind_eq_ok.1 h
    exact ⟨SequenceKey.exists_ofFloat?.1 ⟨base, finiteKey_eq_ok.1 hbase⟩, key, finiteKey_eq_ok.1 hkey,
      pure_eq_ok.1 h⟩
  · intro ⟨hfinite, key, hkey, h⟩
    obtain ⟨base, hbase⟩ := SequenceKey.exists_ofFloat?.2 hfinite
    exact ⟨base, finiteKey_eq_ok.2 hbase, bind_eq_ok.2 ⟨key, finiteKey_eq_ok.2 hkey, pure_eq_ok.2 h⟩⟩

/-- Options are those chosen. There are any if the key that counts is finite, and the one in the
settings as well. -/
theorem options_spec (flags : GenerateFlags) (s : Settings) :
    ((∃ o, flags.options s = .ok o) ↔
      isFinite (flags.effectiveKey s) = true ∧ ∀ x ∈ s.actionKey?, isFinite x = true) ∧
    ∀ o, flags.options s = .ok o →
      o = flags.chosen s o.actionKey ∧ o.actionKey.value = unsignedZero (flags.effectiveKey s) := by
  constructor
  · rw [← Settings.isFinite_actionKey, ← SequenceKey.exists_ofFloat?]
    constructor
    · intro ⟨o, ho⟩
      obtain ⟨hfinite, key, hkey, -⟩ := options_eq_ok.1 ho
      exact ⟨⟨key, hkey⟩, hfinite⟩
    · intro ⟨⟨key, hkey⟩, hfinite⟩
      exact ⟨_, options_eq_ok.2 ⟨hfinite, key, hkey, rfl⟩⟩
  · intro o ho
    obtain ⟨-, key, hkey, rfl⟩ := options_eq_ok.1 ho
    exact ⟨rfl, (SequenceKey.ofFloat?_eq_some_iff.1 hkey).2⟩

/-- A key that is not a number makes the options fail, though the flag gives another one. -/
theorem options_fail_on_replaced_key :
    ∃ s, Settings.read "default-action-key = nan\n" = .ok s ∧
      let flags : GenerateFlags := ⟨none, none, none, false, some 2.0⟩
      isFinite (flags.effectiveKey s) = true ∧ ∀ o, flags.options s ≠ .ok o := by
  have hread : ((Settings.read "default-action-key = nan\n").toOption.map fun s =>
    isFinite s.actionKey) = some false := by
    decide +kernel
  obtain ⟨s, hs, hkey⟩ := Option.map_eq_some_iff.1 hread
  have hflag : isFinite 2.0 = true := by decide
  refine ⟨s, ?_, hflag, fun o ho => ?_⟩
  · cases hx : Settings.read "default-action-key = nan\n" with
    | error e => simp [hx, Except.toOption] at hs
    | ok s' => simpa [hx, Except.toOption] using hs
  · simp [(options_eq_ok.1 ho).1] at hkey

end GenerateFlags

end UpdaterBootstrap
