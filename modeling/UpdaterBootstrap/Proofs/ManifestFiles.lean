import UpdaterBootstrap.Proofs.Completion
import UpdaterBootstrap.Proofs.ReadBack

/-!
# Reading and collecting manifests

What is read at a place is the same in a tree that has only gained directories, unless one of them
stands there (`FileTree.readAt?_of_added`). What becomes of the target's manifest follows from what
is read of both (`writesManifest_iff`).
-/

namespace UpdaterBootstrap

/-! ## Reading files -/

theorem fromUTF8?_toUTF8 (s : String) : String.fromUTF8? s.toUTF8 = some s := by
  unfold String.fromUTF8?
  rw [String.toUTF8_eq_toByteArray, dif_pos s.isValidUTF8]
  rfl

namespace FileTree

theorem at?_of_locate {t : FileTree} {path : String} {l : Location} (h : t.locate path = .ok l) :
    t.at? path = t.entry? l := by
  unfold at?
  rw [h]

theorem at?_of_absent {t : FileTree} {path : String} (h : t.entry? (t.place path) = none) :
    t.at? path = none := by
  unfold at?
  split
  · rename_i l hl
    rw [eq_place_of_locate hl, h]
  · rfl

theorem read?_of_at?_none {t : FileTree} {path : String} (h : t.at? path = none) :
    t.read? path = .ok none := by
  unfold read? contains
  rw [h]
  rfl

theorem locate_of_contains {t : FileTree} {path : String} (h : t.contains path = true) :
    t.locate path = .ok (t.place path) := by
  unfold contains at? at h
  cases hl : t.locate path with
  | error fault =>
    rw [hl] at h
    cases h
  | ok l => rw [eq_place_of_locate hl]

/-- What is read at a place, whether or not a path leads to it. -/
def readAt? (t : FileTree) (l : Location) : Except FileFault (Option String) :=
  if t.entry? l = none then .ok none else (t.readAt l).map some

theorem readAt?_congr {t t' : FileTree} {l : Location} (h : t'.entry? l = t.entry? l) :
    t'.readAt? l = t.readAt? l := by
  unfold readAt? readAt
  rw [h]

theorem read?_of_locate {t : FileTree} {path : String} {l : Location} (h : t.locate path = .ok l) :
    t.read? path = t.readAt? l := by
  unfold read? contains read readAt?
  rw [at?_of_locate h, h]
  by_cases hl : t.entry? l = none
  · rw [hl]
    rfl
  · rw [if_pos (Option.isSome_iff_ne_none.2 hl), if_neg hl]
    rfl

theorem read?_of_file {t : FileTree} {path : String} {l : Location} (h : t.locate path = .ok l)
    {content : String}
    (hl : t.entry? l = some (.file content.toUTF8)) : t.read? path = .ok (some content) := by
  rw [read?_of_locate h]
  unfold readAt? readAt
  rw [hl, if_neg nofun]
  dsimp only
  rw [fromUTF8?_toUTF8]
  rfl

theorem readAt?_of_added {t t' : FileTree} {l : Location}
    (hadded : t'.entry? l = t.entry? l ∨ t.entry? l = none ∧ t'.entry? l = some .directory)
    {text : Option String} (hread : t'.readAt? l = .ok text) : t.readAt? l = .ok text := by
  rcases hadded with he | ⟨-, hdirectory⟩
  · rwa [readAt?_congr he] at hread
  · -- a directory is read with a fault
    unfold readAt? readAt at hread
    rw [hdirectory] at hread
    cases hread

theorem file_iff_of_added {t t' : FileTree} {l : Location}
    (hadded : t'.entry? l = t.entry? l ∨ t.entry? l = none ∧ t'.entry? l = some .directory)
    (bytes : ByteArray) : t'.entry? l = some (.file bytes) ↔ t.entry? l = some (.file bytes) := by
  rcases hadded with he | ⟨hnone, hdirectory⟩
  · rw [he]
  · rw [hnone, hdirectory]
    exact ⟨nofun, nofun⟩

end FileTree

theorem GenerateOptions.place_sourceManifest (o : GenerateOptions) (t : FileTree) :
    t.place o.sourceManifest = t.place o.sourceDir ++ [manifestName] :=
  t.place_join_name o.sourceDir isFileName_manifestName

theorem GenerateOptions.locate_sourceManifest {o : GenerateOptions} {t : FileTree}
    (h : t.isDirectory o.sourceDir = true) :
    t.locate o.sourceManifest = .ok (t.place o.sourceManifest) := by
  obtain ⟨hlocate, hdirectory⟩ := FileTree.locate_of_isDirectory h
  rw [o.place_sourceManifest]
  exact FileTree.locate_join_name hlocate hdirectory isFileName_manifestName

/-! ## Collecting -/

namespace ActionList

theorem read?_of_ofFile {file : Except FileFault (Option String)} {l : ActionList} (h : ofFile file = .ok l) :
    ∃ text, file = .ok text := by
  cases file with
  | error fault => cases h
  | ok text => exact ⟨text, rfl⟩

end ActionList

/-- The manifest changes only if there is something in the source's manifest or something was derived,
and only then is the target's manifest read. -/
theorem collectActionLists_eq_ok {source target : Except FileFault (Option String)} {derived : ActionList}
    {x : Option ActionList} :
    collectActionLists source target derived = .ok x ↔ ∃ l, ActionList.ofFile source = .ok l ∧
      ((l = [] ∧ derived = []) ∧ x = none ∨
        ¬(l = [] ∧ derived = []) ∧ ∃ old, ActionList.ofFile target = .ok old ∧
          x = ActionList.merge [derived, old, l]) := by
  unfold collectActionLists
  rw [bind_eq_ok]
  refine exists_congr fun l => and_congr_right fun _ => ?_
  by_cases hempty : l = [] ∧ derived = []
  · obtain ⟨rfl, rfl⟩ := hempty
    constructor
    · intro h
      exact .inl ⟨⟨rfl, rfl⟩, (Except.ok.inj h).symm⟩
    · rintro (⟨-, rfl⟩ | ⟨h, -⟩)
      · rfl
      · exact absurd ⟨rfl, rfl⟩ h
  · rw [if_neg (by simpa using hempty), bind_eq_ok]
    constructor
    · rintro ⟨old, hold, h⟩
      exact .inr ⟨hempty, old, hold, (pure_eq_ok.1 h).symm⟩
    · rintro (⟨h, -⟩ | ⟨-, old, hold, rfl⟩)
      · exact absurd h hempty
      · exact ⟨old, hold, rfl⟩

theorem ActionList.merge_ne_none {derived old l : ActionList} (h : ¬(l = [] ∧ derived = [])) :
    merge [derived, old, l] ≠ none := by
  intro hnone
  have hempty := merge_eq_none_iff.1 hnone
  simp only [List.flatten_cons, List.flatten_nil, List.append_nil, List.append_eq_nil_iff] at hempty
  exact h ⟨hempty.2.2, hempty.1⟩

theorem writesManifest_iff {o : GenerateOptions} {d t' : FileTree} {derived : ActionList}
    {outcome : ManifestOutcome} :
    WritesManifest o d derived outcome t' ↔ ∃ l, ActionList.ofFile (d.read? o.sourceManifest) = .ok l ∧
      ((l = [] ∧ derived = []) ∧ outcome = .unchanged ∧ t' = d ∨
        ¬(l = [] ∧ derived = []) ∧ ∃ old m, ActionList.ofFile (d.read? o.targetManifest) = .ok old ∧
          ActionList.merge [derived, old, l] = some m ∧ d.save o.targetManifest m.write = (.ok (), t') ∧
          outcome = .written o.targetManifest m.length) := by
  constructor
  · intro h
    cases h with
    | unchanged h =>
      obtain ⟨l, hl, h⟩ := collectActionLists_eq_ok.1 h
      rcases h with ⟨hempty, -⟩ | ⟨hne, old, -, hnone⟩
      · exact ⟨l, hl, .inl ⟨hempty, rfl, rfl⟩⟩
      · exact absurd hnone.symm (ActionList.merge_ne_none hne)
    | written h hsave =>
      obtain ⟨l, hl, h⟩ := collectActionLists_eq_ok.1 h
      rcases h with ⟨-, hnone⟩ | ⟨hne, old, hold, hm⟩
      · cases hnone
      · exact ⟨l, hl, .inr ⟨hne, old, _, hold, hm.symm, hsave, rfl⟩⟩
  · rintro ⟨l, hl, ⟨hempty, rfl, rfl⟩ | ⟨hne, old, m, hold, hm, hsave, rfl⟩⟩
    · exact .unchanged (collectActionLists_eq_ok.2 ⟨l, hl, .inl ⟨hempty, rfl⟩⟩)
    · exact .written (collectActionLists_eq_ok.2 ⟨l, hl, .inr ⟨hne, old, hold, hm.symm⟩⟩) hsave

end UpdaterBootstrap
