import UpdaterBootstrap.Proofs.JoinedPath

/-!
# Paths as seen from a directory

What a path is as seen from a directory is made of the names that follow the parts of the directory,
so joined to the directory it gives a path with these names. That is the path it was made from
exactly if nothing but names follows: a step to a parent is lost, and with it that the path may lead
out of the directory again (`relative?_faithful_iff`).
-/

namespace UpdaterBootstrap

namespace Path

/-! ## The names of a path -/

theorem isFileName_of_innerPart? {piece name : String} (h : innerPart? piece = some (.name name))
    (hslash : '/' ∉ piece.toList) : IsFileName name := by
  unfold innerPart? at h
  split at h
  · cases h
  rename_i hempty
  split at h
  · cases h
  rename_i hparent
  obtain rfl := PathPart.name.inj (Option.some.inj h)
  simp only [Bool.or_eq_true, beq_iff_eq, not_or] at hempty hparent
  exact ⟨hempty.1, hempty.2, hparent, hslash⟩

theorem not_mem_of_mem_pieces {path piece : String} (h : piece ∈ pieces path) : '/' ∉ piece.toList := by
  obtain ⟨cs, hcs, rfl⟩ := List.mem_map.1 h
  rw [String.toList_ofList]
  exact not_mem_of_mem_splitOn hcs

theorem isFileName_of_mem_parts {path name : String} (h : .name name ∈ parts path) : IsFileName name := by
  have hinner : PathPart.name name ∈ (pieces path).filterMap innerPart? := by
    unfold parts at h
    dsimp only at h
    split at h
    · exact (List.mem_cons.1 h).resolve_left nofun
    split at h
    · exact (List.mem_cons.1 h).resolve_left nofun
    · exact h
  obtain ⟨piece, hpiece, hname⟩ := List.mem_filterMap.1 hinner
  exact isFileName_of_innerPart? hname (not_mem_of_mem_pieces hpiece)

theorem isFileName_of_mem_rest {base file name : String} {rest : List PathPart}
    (hrest : parts file = parts base ++ rest)
    (h : name ∈ rest.filterMap PathPart.name?) : IsFileName name := by
  obtain ⟨part, hpart, hname⟩ := List.mem_filterMap.1 h
  have : part = .name name := by
    cases part <;> cases hname
    rfl
  have hfile : .name name ∈ parts file := by
    rw [hrest, ← this]
    exact List.mem_append_right _ hpart
  exact isFileName_of_mem_parts hfile

/-! ## What follows a directory -/

theorem relative?_eq_some_iff {base file r : String} : relative? base file = some r ↔
    ∃ rest, parts file = parts base ++ rest ∧ rest.filterMap PathPart.name? ≠ [] ∧
      r = "/".intercalate (rest.filterMap PathPart.name?) := by
  unfold relative?
  rw [Option.map_eq_some_iff]
  constructor
  · rintro ⟨names, hnames, rfl⟩
    obtain ⟨rest, hrest, rfl, hne⟩ := namesBelow?_eq_some_iff.1 hnames
    exact ⟨rest, hrest, hne, rfl⟩
  · rintro ⟨rest, hrest, hne, rfl⟩
    exact ⟨_, namesBelow?_eq_some_iff.2 ⟨rest, hrest, rfl, hne⟩, rfl⟩

/-- How deep one is below a directory after some steps from it, unless one of them leads out of it. -/
def depthAfter? : Nat → List PathPart → Option Nat
  | depth, [] => some depth
  | depth, .name _ :: steps => depthAfter? (depth + 1) steps
  | depth, .here :: steps => depthAfter? depth steps
  | depth + 1, .parent :: steps => depthAfter? depth steps
  | 0, .parent :: _ => none
  | _, .root :: _ => none

def IsBelow (base file : String) : Prop :=
  ∃ rest depth, parts file = parts base ++ rest ∧ depthAfter? 0 rest = some (depth + 1)

theorem depthAfter?_names (depth : Nat) (names : List String) :
    depthAfter? depth (names.map .name) = some (depth + names.length) := by
  induction names generalizing depth with
  | nil => rfl
  | cons name names ih =>
    rw [List.map_cons, depthAfter?, ih, List.length_cons, Nat.add_right_comm]
    rfl

theorem isBelow_of_names {base file : String} {names : List String} (hne : names ≠ [])
    (h : parts file = parts base ++ names.map .name) : IsBelow base file := by
  refine ⟨_, names.length - 1, h, ?_⟩
  have := List.length_pos_iff.2 hne
  rw [depthAfter?_names, Option.some.injEq]
  omega

/-! ## What a path from a directory is -/

/-- The path as seen from a directory leads, from there, to the path it was made from, and there is
none for a path that is not below the directory. -/
structure SeenRightly (base file : String) : Prop where
  leadsBack : ∀ r, relative? base file = some r → parts (join base r) = parts file
  refused : ¬IsBelow base file → relative? base file = none

theorem map_name_filterMap {rest : List PathPart} (h : ∀ part ∈ rest, part.name?.isSome) :
    (rest.filterMap PathPart.name?).map .name = rest := by
  induction rest with
  | nil => rfl
  | cons part rest ih =>
    obtain ⟨hpart, hrest⟩ := List.forall_mem_cons.1 h
    match part, hpart with
    | .name name, _ => exact congrArg (.name name :: ·) (ih hrest)

theorem isSome_name?_of_mem_map {part : PathPart} {names : List String} (h : part ∈ names.map PathPart.name) :
    part.name?.isSome := by
  obtain ⟨name, -, rfl⟩ := List.mem_map.1 h
  rfl

/-- The path as seen from a directory keeps the names that follow and drops every other step, and
leads where it should. -/
theorem parts_join_relative {base file : String} {rest : List PathPart}
    (hrest : parts file = parts base ++ rest) (hne : rest.filterMap PathPart.name? ≠ []) :
    parts (join base ("/".intercalate (rest.filterMap PathPart.name?))) =
      parts base ++ (rest.filterMap PathPart.name?).map .name :=
  parts_join_names base hne fun _ hname => isFileName_of_mem_rest hrest hname

theorem seenRightly_iff {base file : String} : SeenRightly base file ↔
    ∀ rest, parts file = parts base ++ rest → rest.filterMap PathPart.name? ≠ [] →
      ∀ part ∈ rest, part.name?.isSome := by
  constructor
  · intro ⟨hback, _⟩ rest hrest hne part hpart
    have hjoin := hback _ (relative?_eq_some_iff.2 ⟨rest, hrest, hne, rfl⟩)
    rw [parts_join_relative hrest hne, hrest] at hjoin
    rw [← List.append_cancel_left hjoin] at hpart
    exact isSome_name?_of_mem_map hpart
  · intro h
    constructor
    · intro r hr
      obtain ⟨rest, hrest, hne, rfl⟩ := relative?_eq_some_iff.1 hr
      rw [parts_join_relative hrest hne, map_name_filterMap (h rest hrest hne), hrest]
    · intro hbelow
      by_contra hsome
      obtain ⟨r, hr⟩ := Option.ne_none_iff_exists'.1 hsome
      obtain ⟨rest, hrest, hne, -⟩ := relative?_eq_some_iff.1 hr
      rw [← map_name_filterMap (h rest hrest hne)] at hrest
      exact hbelow (isBelow_of_names hne hrest)

/-- A path is seen from a directory exactly if it begins with the parts of the directory and a name
follows: as the names that follow. That is where it leads, and it is refused if it leads out of the
directory, exactly if nothing but names follows. -/
theorem relative?_faithful_iff (base file : String) :
    (∀ r, relative? base file = some r ↔ ∃ rest, parts file = parts base ++ rest ∧
      rest.filterMap PathPart.name? ≠ [] ∧ r = "/".intercalate (rest.filterMap PathPart.name?) ∧
      parts (join base r) = parts base ++ (rest.filterMap PathPart.name?).map .name) ∧
    (SeenRightly base file ↔ ∀ rest, parts file = parts base ++ rest →
      rest.filterMap PathPart.name? ≠ [] →
      ∀ part ∈ rest, part.name?.isSome) := by
  refine ⟨fun r => ?_, seenRightly_iff⟩
  rw [relative?_eq_some_iff]
  constructor
  · rintro ⟨rest, hrest, hne, rfl⟩
    exact ⟨rest, hrest, hne, rfl, parts_join_relative hrest hne⟩
  · rintro ⟨rest, hrest, hne, rfl, -⟩
    exact ⟨rest, hrest, hne, rfl⟩

theorem depthAfter?_parent (steps : List PathPart) : depthAfter? 0 (.parent :: steps) = none := rfl

/-- A path that leads out of the directory again is seen as one below it. -/
theorem relative?_leaves : relative? "/a" "/a/../b" = some "b" ∧ ¬IsBelow "/a" "/a/../b" ∧
    parts (join "/a" "b") ≠ parts "/a/../b" ∧ ¬SeenRightly "/a" "/a/../b" := by
  have hrelative : relative? "/a" "/a/../b" = some "b" := by decide +kernel
  have hbelow : ¬IsBelow "/a" "/a/../b" := by
    rintro ⟨rest, depth, hrest, hdepth⟩
    have happend : parts "/a/../b" = parts "/a" ++ [.parent, .name "b"] := by decide +kernel
    rw [← List.append_cancel_left (happend.symm.trans hrest), depthAfter?_parent] at hdepth
    cases hdepth
  refine ⟨hrelative, hbelow, by decide +kernel, fun h => ?_⟩
  rw [h.refused hbelow] at hrelative
  cases hrelative

end Path

end UpdaterBootstrap
