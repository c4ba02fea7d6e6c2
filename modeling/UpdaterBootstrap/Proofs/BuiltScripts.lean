import UpdaterBootstrap.Proofs.FoundScripts
import UpdaterBootstrap.Proofs.Merging

/-!
# What a generation builds

What is built of a script depends on its content, its paths and the options, not on the scripts that
were interpreted before it (`Interpreter.interpretText_history`). All that a generation writes is
given by the list of what it builds: the documents, and the entries derived for reloads.
-/

namespace UpdaterBootstrap

/-! ## Interpretation -/

theorem UnitHistory.parse_fst (h : UnitHistory) (text : String) : (h.parse text).1 = parseUnit text := by
  unfold parse
  split <;> simp_all

namespace Interpreter

/-- The history of an interpreter makes no difference to the outcome, and only the history changes. -/
theorem interpretText_history (i : Interpreter) (h : UnitHistory) (path text : String) :
    ∃ h', { i with history := h }.interpretText path text =
      ((i.interpretText path text).1, { i with history := h' }) := by
  unfold interpretText
  dsimp only
  generalize extract text i.keepLineCount = excerpt
  generalize excerpt.unit.render = unit
  split
  · exact ⟨_, rfl⟩
  · rw [UnitHistory.parse_fst, UnitHistory.parse_fst]
    exact ⟨_, rfl⟩

theorem interpretFile_history (i : Interpreter) (h : UnitHistory) (path : String) :
    ∀ content : Except FileFault String, ∃ h', { i with history := h }.interpretFile path content =
      ((i.interpretFile path content).1, { i with history := h' })
  | .ok content => i.interpretText_history h path (normalizeLines content)
  | .error _ => ⟨h, rfl⟩

end Interpreter

namespace GenerateOptions

def scripts (o : GenerateOptions) (t : FileTree) : List FoundScript :=
  discoverScripts t o.sourceDir o.extension

def interpretation (o : GenerateOptions) (t : FileTree) (s : FoundScript) :
    Except InvalidUpdaterName Interpretation :=
  ((Interpreter.new o.keepLineCount).interpretFile (t.absolutePath s.path) (t.readAt s.location)).1

def class? (o : GenerateOptions) (t : FileTree) (s : FoundScript) : Option ClassModel :=
  match o.interpretation t s with
  | .ok (.model m) => some m
  | _ => none

def built? (o : GenerateOptions) (t : FileTree) (s : FoundScript) : Option BuiltScript :=
  (o.class? t s).bind fun m => m.build? o.sourceDir s.path o.actionKey

def built (o : GenerateOptions) (t : FileTree) (ss : List FoundScript) : List BuiltScript :=
  ss.filterMap (o.built? t)

def output (o : GenerateOptions) (b : BuiltScript) : String :=
  Path.join o.targetDir b.documentName

def written (o : GenerateOptions) (b : BuiltScript) : String × String :=
  (o.output b, b.document.write)

theorem interpretation_congr (o : GenerateOptions) {t t' : FileTree} {s : FoundScript}
    (hcurrent : t'.current = t.current)
    (hentry : t'.entry? s.location = t.entry? s.location) : o.interpretation t' s = o.interpretation t s := by
  unfold interpretation FileTree.absolutePath FileTree.readAt
  rw [hcurrent, hentry]

theorem built_append (o : GenerateOptions) (t : FileTree) (ss ss' : List FoundScript) :
    o.built t (ss ++ ss') = o.built t ss ++ o.built t ss' :=
  List.filterMap_append

theorem actionKey_of_built? (o : GenerateOptions) {t : FileTree} {s : FoundScript} {b : BuiltScript}
    (h : o.built? t s = some b) : b.actionKey = o.actionKey := by
  obtain ⟨m, -, hb⟩ := Option.bind_eq_some_iff.1 h
  obtain ⟨d, -, hb⟩ := Option.bind_eq_some_iff.1 hb
  obtain ⟨name, -, hb⟩ := Option.bind_eq_some_iff.1 hb
  rw [← Option.some.inj hb]

def interpreter (o : GenerateOptions) (h : UnitHistory) : Interpreter :=
  { Interpreter.new o.keepLineCount with history := h }

theorem build_interpreter (o : GenerateOptions) (t : FileTree) (s : FoundScript) (h : UnitHistory) :
    ∃ h', (o.interpreter h).build o.sourceDir s.path (t.absolutePath s.path) o.actionKey
      (t.readAt s.location) =
      ((o.interpretation t s).map fun _ => o.built? t s, o.interpreter h') := by
  obtain ⟨h', hinterpret⟩ :=
    (Interpreter.new o.keepLineCount).interpretFile_history h (t.absolutePath s.path) (t.readAt s.location)
  refine ⟨h', ?_⟩
  unfold Interpreter.build built? class? interpreter
  rw [hinterpret]
  unfold interpretation
  generalize ((Interpreter.new o.keepLineCount).interpretFile (t.absolutePath s.path)
    (t.readAt s.location)).1 = result
  rcases result with e | (m | reason) <;> rfl

end GenerateOptions

/-! ## Scripts that are built -/

section
variable {o : GenerateOptions} {t : FileTree} {s : FoundScript} {names : List String}
  (hs : s.IsAt t o.sourceDir o.extension names) (hsource : o.sourceDir ≠ "")
include hs hsource

/-- A script is built if it is a usable class that is not excluded. -/
theorem GenerateOptions.built?_eq_some {b : BuiltScript} :
    o.built? t s = some b ↔ ∃ m, o.class? t s = some m ∧ (m.isValid = true ∧ m.isExcluded = false) ∧
      b = ⟨s.path, m.writtenDocument, "/".intercalate (Path.withExtension "yaml" names), m.reloadPath?,
        o.actionKey⟩ := by
  unfold built?
  rw [Option.bind_eq_some_iff]
  refine exists_congr fun m => and_congr_right fun _ => ?_
  unfold ClassModel.build?
  rw [hs.documentName? hsource]
  cases hd : m.document? with
  | none =>
    constructor
    · intro h
      cases h
    · rintro ⟨h, -⟩
      rw [ClassModel.document?_eq_some.2 ⟨h, rfl⟩] at hd
      cases hd
  | some d =>
    obtain ⟨h, rfl⟩ := ClassModel.document?_eq_some.1 hd
    exact ⟨fun hb => ⟨h, (Option.some.inj hb).symm⟩, fun hb => congrArg some hb.2.symm⟩

theorem GenerateOptions.place_output {b : BuiltScript} (hb : o.built? t s = some b) :
    t.place (o.output b) = t.place o.targetDir ++ Path.withExtension "yaml" names := by
  obtain ⟨m, -, -, rfl⟩ := (GenerateOptions.built?_eq_some hs hsource).1 hb
  exact hs.documentPlace o.targetDir

end

/-! ## Derived entries -/

namespace ActionList

def reloads (key : SequenceKey) (paths : List String) : ActionList :=
  paths.foldl (fun l path => l.insert key path .reload) []

theorem get?_foldl_reload (paths : List String) (m : ActionMap) (path : String) :
    (paths.foldl (fun m path => m.insert path Action.reload) m).get? path =
      if path ∈ paths then some .reload else m.get? path := by
  induction paths generalizing m with
  | nil => rfl
  | cons p paths ih =>
    rw [List.foldl_cons, ih, AscendingMap.get?_insert]
    by_cases hmem : path ∈ paths
    · rw [if_pos hmem, if_pos (List.mem_cons_of_mem p hmem)]
    · simp only [hmem, List.mem_cons, or_false, if_false]

theorem foldl_reload (key : SequenceKey) (paths : List String) (m : ActionMap) :
    paths.foldl (fun l path => insert key path .reload l) [⟨key, m⟩] =
      [⟨key, paths.foldl (fun m path => m.insert path .reload) m⟩] := by
  induction paths generalizing m with
  | nil => rfl
  | cons path paths ih =>
    have hstep : insert key path .reload [⟨key, m⟩] = [⟨key, m.insert path .reload⟩] := if_pos rfl
    rw [List.foldl_cons, hstep, ih]
    rfl

theorem reloads_cons (key : SequenceKey) (path : String) (paths : List String) :
    reloads key (path :: paths) =
      [⟨key, (path :: paths).foldl (fun m path => m.insert path .reload) .empty⟩] :=
  foldl_reload key paths (AscendingMap.empty.insert path .reload)

theorem reloads_append (key : SequenceKey) (paths paths' : List String) :
    reloads key (paths ++ paths') =
      paths'.foldl (fun l path => insert key path .reload l) (reloads key paths) :=
  List.foldl_append

theorem reloads_eq_nil {key : SequenceKey} {paths : List String} : reloads key paths = [] ↔ paths = [] := by
  cases paths with
  | nil => exact ⟨fun _ => rfl, fun _ => rfl⟩
  | cons path paths =>
    rw [reloads_cons]
    exact ⟨nofun, nofun⟩

theorem mem_keys_reloads {key key' : SequenceKey} {paths : List String} :
    key' ∈ keys (reloads key paths) ↔ key' = key ∧ paths ≠ [] := by
  cases paths with
  | nil => exact ⟨nofun, fun h => absurd rfl h.2⟩
  | cons path paths =>
    rw [reloads_cons, keys_cons, keys_nil, List.mem_singleton]
    exact ⟨fun h => ⟨h, List.cons_ne_nil _ _⟩, And.left⟩

theorem action?_reloads (key key' : SequenceKey) (paths : List String) (path : String) :
    action? (reloads key paths) key' path = if key' = key ∧ path ∈ paths then some .reload else none := by
  cases paths with
  | nil =>
    rw [if_neg fun h => absurd h.2 List.not_mem_nil]
    rfl
  | cons p paths =>
    rw [reloads_cons, action?_single, get?_foldl_reload]
    by_cases hkey : key' = key
    · simp only [hkey, true_and, if_true]
      rfl
    · rw [if_neg (Ne.symm hkey), if_neg fun h => hkey h.1]

end ActionList

end UpdaterBootstrap
