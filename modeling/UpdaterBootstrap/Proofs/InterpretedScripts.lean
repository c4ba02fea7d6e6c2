import UpdaterBootstrap.Proofs.BuiltScripts

/-!
# One interpreter for many scripts

An interpreter keeps a history from one script to the next. What a script is interpreted as is the
same after every history (`Interpreter.outcomes_run`). The history itself is given by the scripts
that could be read: it counts the units that were parsed, and it remembers the class of the last
script that could be read, not of the last script (`Interpreter.history_run_concat`).
-/

namespace UpdaterBootstrap

/-- A script as it reaches an interpreter: its absolute path, and what was read of it. -/
structure ReadScript where
  path : String
  content : Except FileFault String

namespace ReadScript

def isReadable (s : ReadScript) : Bool :=
  s.content.isOk

def unit? (keepLineCount : Bool) (s : ReadScript) : Option ParsedUnit :=
  match s.content with
  | .error _ => none
  | .ok content =>
    let excerpt := extract (normalizeLines content) keepLineCount
    if excerpt.isAnnotated then (parseUnit excerpt.unit.render).toOption else none

def className? (keepLineCount : Bool) (s : ReadScript) : Option String :=
  (s.unit? keepLineCount).map ParsedUnit.className

theorem className?_of_not_readable {keepLineCount : Bool} {s : ReadScript} (h : s.isReadable = false) :
    s.className? keepLineCount = none := by
  obtain ⟨path, fault | content⟩ := s
  · rfl
  · cases h

end ReadScript

/-- The class of the last script that could be read, or the one before if none could. -/
def lastReadClass? (keepLineCount : Bool) (before : Option String) (scripts : List ReadScript) :
    Option String :=
  match (scripts.filter ReadScript.isReadable).getLast? with
  | some s => s.className? keepLineCount
  | none => before

def parsedUnits (keepLineCount : Bool) (scripts : List ReadScript) : Nat :=
  scripts.countP fun s => (s.unit? keepLineCount).isSome

section
variable (keepLineCount : Bool) (before : Option String) (scripts : List ReadScript) (s : ReadScript)

theorem lastReadClass?_cons :
    lastReadClass? keepLineCount before (s :: scripts) =
      lastReadClass? keepLineCount (if s.isReadable then s.className? keepLineCount else before) scripts := by
  unfold lastReadClass?
  rw [List.filter_cons]
  cases s.isReadable
  · rfl
  · rw [if_pos rfl, if_pos rfl, List.getLast?_cons]
    cases (scripts.filter ReadScript.isReadable).getLast? <;> rfl

theorem lastReadClass?_concat :
    lastReadClass? keepLineCount before (scripts ++ [s]) =
      if s.isReadable then s.className? keepLineCount else lastReadClass? keepLineCount before scripts := by
  unfold lastReadClass?
  rw [List.filter_append, List.filter_cons, List.filter_nil]
  cases s.isReadable
  · rw [if_neg Bool.false_ne_true, if_neg Bool.false_ne_true, List.append_nil]
  · rw [if_pos rfl, if_pos rfl, List.getLast?_concat]

theorem parsedUnits_cons :
    parsedUnits keepLineCount (s :: scripts) =
      (if (s.unit? keepLineCount).isSome then 1 else 0) + parsedUnits keepLineCount scripts := by
  unfold parsedUnits
  rw [List.countP_cons, Nat.add_comm]

end

namespace Interpreter

def run (i : Interpreter) : List ReadScript → List (Except InvalidUpdaterName Interpretation) × Interpreter
  | [] => ([], i)
  | s :: scripts =>
    let (outcome, i) := i.interpretFile s.path s.content
    let (outcomes, i) := i.run scripts
    (outcome :: outcomes, i)

def fresh (namespaces : Namespaces) (keepLineCount : Bool) : Interpreter :=
  ⟨.empty, namespaces, keepLineCount⟩

/-! ## Outcomes -/

/-- A script is interpreted as it is when it is the only one, and of the interpreter only the
history changes. -/
theorem run_eq (i : Interpreter) (scripts : List ReadScript) :
    ∃ h, i.run scripts =
      (scripts.map fun s => ((fresh i.namespaces i.keepLineCount).interpretFile s.path s.content).1,
        { i with history := h }) := by
  induction scripts generalizing i with
  | nil => exact ⟨i.history, rfl⟩
  | cons s scripts ih =>
    obtain ⟨h, hfirst⟩ :=
      (fresh i.namespaces i.keepLineCount).interpretFile_history i.history s.path s.content
    obtain ⟨h', hrest⟩ := ih { i with history := h }
    refine ⟨h', ?_⟩
    have hsame : i.interpretFile s.path s.content =
        (((fresh i.namespaces i.keepLineCount).interpretFile s.path s.content).1,
          { i with history := h }) := hfirst
    rw [run, hsame]
    dsimp only
    rw [hrest]
    rfl

/-- Scripts do not influence each other: whatever an interpreter has seen, and whatever comes of the
other scripts of a run, each script has the outcome that it has in a new interpreter. -/
theorem outcomes_run (i : Interpreter) (scripts : List ReadScript) :
    (i.run scripts).1 =
        scripts.map (fun s => ((fresh i.namespaces i.keepLineCount).interpretFile s.path s.content).1) ∧
      (i.run scripts).2.namespaces = i.namespaces ∧ (i.run scripts).2.keepLineCount = i.keepLineCount := by
  obtain ⟨h, hrun⟩ := i.run_eq scripts
  rw [hrun]
  exact ⟨rfl, rfl, rfl⟩

/-! ## The history -/

/-- What one script does to the history: nothing if it cannot be read; else the class before is
forgotten, and the class of the unit takes its place if the unit is parsed. -/
theorem history_interpretFile (i : Interpreter) (s : ReadScript) :
    (i.interpretFile s.path s.content).2.history =
      ⟨if s.isReadable then s.className? i.keepLineCount else i.history.lastClass,
        i.history.unitsParsed + if (s.unit? i.keepLineCount).isSome then 1 else 0⟩ := by
  obtain ⟨path, fault | content⟩ := s
  · rfl
  · rw [interpretFile, interpret, interpretText]
    have hunit : ReadScript.unit? i.keepLineCount ⟨path, .ok content⟩ =
        let excerpt := extract (normalizeLines content) i.keepLineCount
        if excerpt.isAnnotated then (parseUnit excerpt.unit.render).toOption else none := rfl
    rw [ReadScript.className?, hunit]
    generalize extract (normalizeLines content) i.keepLineCount = excerpt
    dsimp only
    by_cases hannotated : excerpt.isAnnotated = true
    · rw [if_neg (by simp [hannotated]), if_pos hannotated, UnitHistory.parse]
      cases parseUnit excerpt.unit.render <;> rfl
    · rw [if_pos (by simp [hannotated]), if_neg hannotated]
      rfl

theorem history_run (i : Interpreter) (scripts : List ReadScript) :
    (i.run scripts).2.history =
      ⟨lastReadClass? i.keepLineCount i.history.lastClass scripts,
        i.history.unitsParsed + parsedUnits i.keepLineCount scripts⟩ := by
  induction scripts generalizing i with
  | nil => rfl
  | cons s scripts ih =>
    have hkeep : (i.interpretFile s.path s.content).2.keepLineCount = i.keepLineCount := by
      obtain ⟨h, hfirst⟩ := i.interpretFile_history i.history s.path s.content
      exact congrArg (fun r => r.2.keepLineCount) hfirst
    dsimp only [run]
    rw [ih, history_interpretFile, hkeep, lastReadClass?_cons, parsedUnits_cons, Nat.add_assoc]

/-- After each script of a run, the units that were parsed have been counted, and the class
remembered is that of the last script that could be read. So it is the class of this script exactly
if the script could be read or there was no class to forget. -/
theorem history_run_concat (namespaces : Namespaces) (keepLineCount : Bool) (scripts : List ReadScript)
    (s : ReadScript) :
    let before := lastReadClass? keepLineCount none scripts
    let history := ((fresh namespaces keepLineCount).run (scripts ++ [s])).2.history
    history.unitsParsed = parsedUnits keepLineCount (scripts ++ [s]) ∧
      history.lastClass = lastReadClass? keepLineCount none (scripts ++ [s]) ∧
      (history.lastClass = s.className? keepLineCount ↔ s.isReadable = true ∨ before = none) := by
  intro before history
  have hhistory : history = _ := history_run (fresh namespaces keepLineCount) (scripts ++ [s])
  rw [hhistory]
  refine ⟨Nat.zero_add _, rfl, ?_⟩
  dsimp only [fresh, UnitHistory.empty]
  rw [lastReadClass?_concat]
  cases hs : s.isReadable with
  | true => exact ⟨fun _ => .inl rfl, fun _ => rfl⟩
  | false =>
    rw [ReadScript.className?_of_not_readable hs]
    exact ⟨.inr, fun h => h.resolve_left Bool.false_ne_true⟩

/-- The class of a script is still remembered after one that cannot be read. -/
theorem lastClass_kept_unreadable :
    let first : ReadScript := ⟨"/A.groovy", .ok "@Updater(name = 'A')\nclass A \x7b\x7d\n"⟩
    let second : ReadScript := ⟨"/B.groovy", .error .notFound⟩
    second.className? false = none ∧
      ((fresh .initial false).run [first, second]).2.history = ⟨some "A", 1⟩ := by
  intro first second
  exact ⟨rfl, by decide +kernel⟩

end Interpreter

end UpdaterBootstrap
