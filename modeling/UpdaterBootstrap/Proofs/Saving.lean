import UpdaterBootstrap.Proofs.Outcome
import UpdaterBootstrap.Proofs.Place

/-!
# What a save leaves

A save puts a file at the place of its path, whatever the tree was, and apart from that it creates
directories where nothing was (`saved_of_save`). Saving again where the path leads to a file only
replaces that file (`save_of_locate`).
-/

namespace UpdaterBootstrap

namespace FileTree

/-! ## Putting an entry -/

theorem entry?_nil (t : FileTree) : t.entry? [] = some .directory := rfl

theorem entry?_of_ne_nil {t : FileTree} {l : Location} (h : l ≠ []) : t.entry? l = t.entries.get? l :=
  if_neg h

theorem entry?_put {l : Location} (h : l ≠ []) (t : FileTree) (e : FileEntry) (l' : Location) :
    FileTree.entry? (t.put l e) l' = if l' = l then some e else t.entry? l' := by
  by_cases hl' : l' = []
  · rw [hl', entry?_nil, entry?_nil, if_neg (Ne.symm h)]
  · rw [entry?_of_ne_nil hl', entry?_of_ne_nil hl']
    exact AscendingMap.get?_insert t.entries l l' e

theorem ne_nil_of_not_directory {t : FileTree} {l : Location} (h : t.entry? l ≠ some .directory) :
    l ≠ [] := by
  rintro rfl
  exact h (entry?_nil t)

theorem extends_put {t : FileTree} {l : Location} (h : t.entry? l ≠ some .directory) (e : FileEntry) :
    Extends t (t.put l e) := by
  refine ⟨rfl, fun l' hl' => ?_⟩
  have hne : l' ≠ l := by
    rintro rfl
    exact h hl'
  rw [entry?_put (ne_nil_of_not_directory h), if_neg hne, hl']

theorem put_eq_self {t : FileTree} {l : Location} {e : FileEntry} (hl : l ≠ []) (h : t.entry? l = some e) :
    t.put l e = t := by
  rw [entry?_of_ne_nil hl] at h
  unfold put
  rw [AscendingMap.insert_eq_self h]

theorem put_put (t : FileTree) (l : Location) (e e' : FileEntry) : (t.put l e).put l e' = t.put l e' := by
  unfold put
  rw [AscendingMap.insert_insert]

/-! ## Listing files -/

/-- What an entry shows in the list of the files below a location: its names from there on, if it is
a file. -/
def listed? (root : Location) : Location × FileEntry → Option (List String × ByteArray)
  | (_, .directory) => none
  | (l, .file bytes) => (root.isPrefixOf? l).map (·, bytes)

theorem filesFrom_eq (t : FileTree) (root : Location) :
    t.filesFrom root = t.entries.entries.filterMap (listed? root) := by
  unfold filesFrom
  congr 1
  funext e
  obtain ⟨l, _ | bytes⟩ := e <;> unfold listed? <;> dsimp only <;> cases root.isPrefixOf? l <;> rfl

theorem listed?_eq_some {root : Location} {e : Location × FileEntry} {f : List String × ByteArray} :
    listed? root e = some f ↔ e = (root ++ f.1, .file f.2) := by
  obtain ⟨l, _ | bytes⟩ := e
  · exact ⟨nofun, nofun⟩
  · unfold listed?
    rw [Option.map_eq_some_iff]
    constructor
    · rintro ⟨names, hnames, rfl⟩
      rw [← List.isPrefixOf?_eq_some_iff_append_eq.1 hnames]
    · intro h
      obtain ⟨rfl, hbytes⟩ := Prod.mk.inj h
      obtain rfl := FileEntry.file.inj hbytes
      exact ⟨f.1, List.isPrefixOf?_eq_some_iff_append_eq.2 rfl, rfl⟩

/-- Nothing but a file shows in a list of files, and only in that of a directory above it. -/
theorem filesFrom_put {t : FileTree} {l root : Location} {e : FileEntry} (hl : l ≠ [])
    (h : ¬ root <+: l ∨ e = .directory ∧ t.entry? l = none) :
    (t.put l e).filesFrom root = t.filesFrom root := by
  have hidden (hout : ¬ root <+: l) (e : FileEntry) : listed? root (l, e) = none := by
    refine Option.eq_none_iff_forall_ne_some.2 fun f hf => hout ?_
    rw [(Prod.mk.inj (listed?_eq_some.1 hf)).1]
    exact List.prefix_append _ _
  rw [filesFrom_eq, filesFrom_eq]
  rcases h with h | ⟨rfl, hnone⟩
  · exact filterMap_insertByKey (hidden h e) fun v _ => hidden h v
  · refine filterMap_insertByKey rfl fun v hv => ?_
    rw [entry?_of_ne_nil hl, AscendingMap.mem_entries_iff.1 hv] at hnone
    cases hnone

/-! ## Creating directories -/

structure AddsDirectories (t t' : FileTree) : Prop where
  current : t'.current = t.current
  entries : ∀ l, t'.entry? l = t.entry? l ∨ t.entry? l = none ∧ t'.entry? l = some .directory
  files : ∀ root, t'.filesFrom root = t.filesFrom root

theorem AddsDirectories.refl (t : FileTree) : AddsDirectories t t :=
  ⟨rfl, fun _ => .inl rfl, fun _ => rfl⟩

theorem AddsDirectories.put {t t' : FileTree} (h : AddsDirectories t t') {l : Location}
    (hl : t'.entry? l = none) :
    AddsDirectories t (t'.put l .directory) := by
  have hne : l ≠ [] := ne_nil_of_not_directory fun hd => by
    rw [hl] at hd
    cases hd
  refine ⟨h.current, fun l' => ?_, fun root => (filesFrom_put hne (.inr ⟨rfl, hl⟩)).trans (h.files root)⟩
  rw [entry?_put hne]
  by_cases heq : l' = l
  · rw [if_pos heq]
    rcases h.entries l' with he | he
    · exact .inr ⟨by rw [← he, heq, hl], rfl⟩
    · exact .inr ⟨he.1, rfl⟩
  · rw [if_neg heq]
    exact h.entries l'

theorem addsDirectories_makeWay {t t' : FileTree} (h : AddsDirectories t t') (l : Location)
    (ps : List String) :
    AddsDirectories t (t'.makeWay l ps).2 := by
  induction ps generalizing t' l with
  | nil => exact h
  | cons p ps ih =>
    rw [makeWay]
    split
    · exact ih h _
    · exact h
    · rename_i hnone
      exact ih (h.put hnone) _

theorem stepOf?_innerPart? {p : String} {part : PathPart} (h : Path.innerPart? p = some part) :
    stepOf? part = some p := by
  unfold Path.innerPart? at h
  split at h
  · cases h
  split at h
  · rename_i hparent
    rw [← Option.some.inj h, beq_iff_eq.1 hparent]
    rfl
  · rw [← Option.some.inj h]
    rfl

theorem stepFrom_of_innerPart?_none {p : String} (h : Path.innerPart? p = none) (l : Location) :
    stepFrom l p = l := by
  unfold Path.innerPart? at h
  unfold stepFrom
  split at h
  · rename_i hskip
    rw [if_pos hskip]
  · split at h <;> cases h

/-- Where a walk leads through, there is nothing to create. -/
theorem makeWay_of_walk {t : FileTree} {ps : List String} {l l' : Location} (h : t.walk l ps = .ok l') :
    ∃ m, t.makeWay l ((ps.filterMap Path.innerPart?).dropLast.filterMap stepOf?) = (.ok m, t) := by
  induction ps generalizing l with
  | nil => exact ⟨l, rfl⟩
  | cons p ps ih =>
    obtain ⟨hdirectory, hwalk⟩ := walk_cons.1 h
    obtain ⟨m, hm⟩ := ih hwalk
    cases hp : Path.innerPart? p with
    | none =>
      rw [stepFrom_of_innerPart?_none hp] at hm
      rw [List.filterMap_cons_none hp]
      exact ⟨m, hm⟩
    | some part =>
      rw [List.filterMap_cons_some hp]
      by_cases hps : ps.filterMap Path.innerPart? = []
      · rw [hps]
        exact ⟨l, rfl⟩
      · have hnext : t.entry? (stepFrom l p) = some .directory := by
          cases ps with
          | nil => exact absurd rfl hps
          | cons q qs => exact (walk_cons.1 hwalk).1
        rw [List.dropLast_cons_of_ne_nil hps, List.filterMap_cons_some (stepOf?_innerPart? hp), makeWay,
          hnext]
        exact ⟨m, hm⟩

theorem makeParents_of_locate {t : FileTree} {path : String} {l : Location} (h : t.locate path = .ok l) :
    t.makeParents path = (.ok (), t) := by
  have hwalk := (locate_eq_ok.1 h).2
  have hstart : t.entry? (t.start path) = some .directory := by
    obtain ⟨p, ps, hps⟩ := List.exists_cons_of_ne_nil (Path.pieces_ne_nil path)
    rw [hps] at hwalk
    exact (walk_cons.1 hwalk).1
  obtain ⟨m, hm⟩ := makeWay_of_walk hwalk
  -- the root in front is no step, and a dot in front is one that stays
  have hsteps : ∃ m, t.makeWay (t.start path) ((Path.parts path).dropLast.filterMap stepOf?) =
      (.ok m, t) := by
    unfold Path.parts
    dsimp only
    by_cases hinner : (Path.pieces path).filterMap Path.innerPart? = []
    · rw [hinner]
      split
      · exact ⟨_, rfl⟩
      split <;> exact ⟨_, rfl⟩
    · split
      · rw [List.dropLast_cons_of_ne_nil hinner, List.filterMap_cons_none rfl]
        exact ⟨m, hm⟩
      split
      · have hhere : stepFrom (t.start path) "." = t.start path := rfl
        have hstep : stepOf? .here = some "." := rfl
        rw [List.dropLast_cons_of_ne_nil hinner, List.filterMap_cons_some hstep, makeWay, hhere, hstart]
        exact ⟨m, hm⟩
      · exact ⟨m, hm⟩
  obtain ⟨m, hm⟩ := hsteps
  unfold makeParents
  rw [hm]
  rfl

/-! ## Saving -/

theorem write_eq_ok {t t' : FileTree} {path content : String} :
    t.write path content = .ok t' ↔ ∃ l, t.locate path = .ok l ∧ t.entry? l ≠ some .directory ∧
      t' = t.put l (.file content.toUTF8) := by
  unfold write
  rw [bind_eq_ok]
  refine exists_congr fun l => and_congr_right fun _ => ?_
  split
  · rename_i hdirectory
    exact ⟨nofun, fun h => absurd hdirectory h.1⟩
  · rename_i hother
    exact ⟨fun h => ⟨hother, (Except.ok.inj h).symm⟩, fun h => congrArg _ h.2.symm⟩

theorem save_eq_ok {t t' : FileTree} {path content : String} :
    t.save path content = (.ok (), t') ↔ ∃ m, t.makeParents path = (.ok (), m) ∧
      m.write path content = .ok t' := by
  unfold save
  rcases t.makeParents path with ⟨_ | ⟨⟩, m⟩
  · exact ⟨nofun, nofun⟩
  · dsimp only
    constructor
    · intro h
      refine ⟨m, rfl, ?_⟩
      split at h
      · rename_i hwrite
        rw [hwrite, (Prod.mk.inj h).2]
      · cases h
    · rintro ⟨_, hm, h⟩
      rw [← (Prod.mk.inj hm).2] at h
      rw [h]

theorem save_of_locate {t : FileTree} {path : String} {l : Location} (h : t.locate path = .ok l)
    (hl : t.entry? l ≠ some .directory) (content : String) :
    t.save path content = (.ok (), t.put l (.file content.toUTF8)) :=
  save_eq_ok.2 ⟨t, makeParents_of_locate h, write_eq_ok.2 ⟨l, h, hl, rfl⟩⟩

structure Saved (t : FileTree) (path content : String) (t' : FileTree) : Prop where
  current : t'.current = t.current
  locate : t'.locate path = .ok (t.place path)
  file : t'.entry? (t.place path) = some (.file content.toUTF8)
  free : t.entry? (t.place path) ≠ some .directory
  others : ∀ l, l ≠ t.place path → t'.entry? l = t.entry? l ∨ t.entry? l = none ∧
    t'.entry? l = some .directory
  files : ∀ root, ¬ root <+: t.place path → t'.filesFrom root = t.filesFrom root

theorem saved_of_save {t t' : FileTree} {path content : String} (h : t.save path content = (.ok (), t')) :
    Saved t path content t' := by
  obtain ⟨m, hm, hwrite⟩ := save_eq_ok.1 h
  obtain ⟨l, hl, hfree, rfl⟩ := write_eq_ok.1 hwrite
  have hadds : AddsDirectories t m := by
    have := addsDirectories_makeWay (.refl t) (t.start path) ((Path.parts path).dropLast.filterMap stepOf?)
    unfold makeParents at hm
    rwa [← (Prod.mk.inj hm).2]
  obtain rfl : l = t.place path := by rw [eq_place_of_locate hl, place_congr hadds.current]
  have hne := ne_nil_of_not_directory hfree
  refine ⟨hadds.current, (extends_put hfree _).locate hl, ?_, fun hd => ?_, fun l hl => ?_,
    fun root hroot => ?_⟩
  · rw [entry?_put hne, if_pos rfl]
  · rcases hadds.entries (t.place path) with he | he
    · exact hfree (he.trans hd)
    · rw [he.1] at hd
      cases hd
  · rw [entry?_put hne, if_neg hl]
    exact hadds.entries l
  · exact (filesFrom_put hne (.inl hroot)).trans (hadds.files root)

theorem Saved.place_ne_nil {t t' : FileTree} {path content : String} (h : Saved t path content t') :
    t.place path ≠ [] :=
  ne_nil_of_not_directory h.free

theorem Saved.extends {t t' : FileTree} {path content : String} (h : Saved t path content t') :
    Extends t t' := by
  refine ⟨h.current, fun l hl => ?_⟩
  rcases h.others l fun heq => h.free (heq ▸ hl) with he | he
  · rw [he, hl]
  · exact he.2

theorem Saved.file_of_ne {t t' : FileTree} {path content : String} (h : Saved t path content t')
    {l : Location}
    (hl : l ≠ t.place path) (bytes : ByteArray) (hfile : t.entry? l = some (.file bytes)) :
    t'.entry? l = some (.file bytes) := by
  rcases h.others l hl with he | he
  · rw [he, hfile]
  · rw [he.1] at hfile
    cases hfile

/-! ## Saving in turn -/

def saveAll (t : FileTree) : List (String × String) → Except FileFault FileTree
  | [] => .ok t
  | w :: ws =>
    match t.save w.1 w.2 with
    | (.ok (), t) => t.saveAll ws
    | (.error fault, _) => .error fault

theorem saveAll_cons {t t' : FileTree} {w : String × String} {ws : List (String × String)} :
    t.saveAll (w :: ws) = .ok t' ↔ ∃ m, t.save w.1 w.2 = (.ok (), m) ∧ m.saveAll ws = .ok t' := by
  rw [saveAll]
  rcases t.save w.1 w.2 with ⟨_ | ⟨⟩, m⟩
  · exact ⟨nofun, nofun⟩
  · constructor
    · intro h
      exact ⟨m, rfl, h⟩
    · rintro ⟨_, hm, h⟩
      rwa [← (Prod.mk.inj hm).2] at h

theorem saveAll_single {t t' : FileTree} {w : String × String} :
    t.saveAll [w] = .ok t' ↔ t.save w.1 w.2 = (.ok (), t') := by
  rw [saveAll_cons]
  constructor
  · rintro ⟨m, hm, h⟩
    rwa [← Except.ok.inj h]
  · intro h
    exact ⟨t', h, rfl⟩

theorem saveAll_append {t t' : FileTree} {ws ws' : List (String × String)} :
    t.saveAll (ws ++ ws') = .ok t' ↔ ∃ m, t.saveAll ws = .ok m ∧ m.saveAll ws' = .ok t' := by
  induction ws generalizing t with
  | nil =>
    constructor
    · intro h
      exact ⟨t, rfl, h⟩
    · rintro ⟨_, hm, h⟩
      rwa [← Except.ok.inj hm] at h
  | cons w ws ih =>
    rw [List.cons_append, saveAll_cons]
    constructor
    · rintro ⟨m, hm, h⟩
      obtain ⟨m', hm', h⟩ := ih.1 h
      exact ⟨m', saveAll_cons.2 ⟨m, hm, hm'⟩, h⟩
    · rintro ⟨m', hm', h⟩
      obtain ⟨m, hm, hm'⟩ := saveAll_cons.1 hm'
      exact ⟨m, hm, ih.2 ⟨m', hm', h⟩⟩

structure SavedAll (t : FileTree) (ws : List (String × String)) (t' : FileTree) : Prop where
  extends' : Extends t t'
  locate : ∀ w ∈ ws, t'.locate w.1 = .ok (t.place w.1)
  file : (ws.map fun w => t.place w.1).Nodup →
    ∀ w ∈ ws, t'.entry? (t.place w.1) = some (.file w.2.toUTF8)
  others : ∀ l, l ∉ ws.map (fun w => t.place w.1) →
    t'.entry? l = t.entry? l ∨ t.entry? l = none ∧ t'.entry? l = some .directory
  files : ∀ root, (∀ w ∈ ws, ¬ root <+: t.place w.1) → t'.filesFrom root = t.filesFrom root

theorem savedAll_of_saveAll {t t' : FileTree} {ws : List (String × String)} (h : t.saveAll ws = .ok t') :
    SavedAll t ws t' := by
  induction ws generalizing t with
  | nil =>
    obtain rfl := Except.ok.inj h
    exact ⟨.refl t, nofun, nofun, fun _ _ => .inl rfl, fun _ _ => rfl⟩
  | cons w ws ih =>
    obtain ⟨m, hm, h⟩ := saveAll_cons.1 h
    have hfirst := saved_of_save hm
    have hrest := ih h
    -- places are reckoned in the tree after the first text, where they are the same
    have hplaces : ws.map (fun w => m.place w.1) = ws.map fun w => t.place w.1 :=
      List.map_congr_left fun w _ => place_congr hfirst.current w.1
    refine ⟨hfirst.extends.trans hrest.extends', fun v hv => ?_, fun hnodup v hv => ?_, fun l hl => ?_,
      fun root hroot => ?_⟩
    · rcases List.mem_cons.1 hv with rfl | hv
      · exact hrest.extends'.locate hfirst.locate
      · rw [hrest.locate v hv, place_congr hfirst.current]
    · rw [List.map_cons, List.nodup_cons] at hnodup
      rcases List.mem_cons.1 hv with rfl | hv
      · rw [← hplaces] at hnodup
        rcases hrest.others _ hnodup.1 with he | he
        · rw [he, hfirst.file]
        · rw [hfirst.file] at he
          cases he.1
      · rw [← place_congr hfirst.current]
        exact hrest.file (hplaces ▸ hnodup.2) v hv
    · rw [List.map_cons, List.mem_cons, not_or] at hl
      rcases hrest.others l (hplaces ▸ hl.2) with he | he
      · rw [he]
        exact hfirst.others l hl.1
      · rcases hfirst.others l hl.1 with he' | he'
        · exact .inr ⟨he' ▸ he.1, he.2⟩
        · exact .inr ⟨he'.1, he.2⟩
    · rw [← hfirst.files root (hroot w List.mem_cons_self)]
      refine hrest.files root fun v hv => ?_
      rw [place_congr hfirst.current]
      exact hroot v (List.mem_cons_of_mem w hv)

theorem SavedAll.file_of_not_mem {t t' : FileTree} {ws : List (String × String)} (h : SavedAll t ws t')
    {l : Location}
    (hl : l ∉ ws.map fun w => t.place w.1) {bytes : ByteArray} (hfile : t.entry? l = some (.file bytes)) :
    t'.entry? l = some (.file bytes) := by
  rcases h.others l hl with he | he
  · rw [he, hfile]
  · rw [he.1] at hfile
    cases hfile

/-! ## Saving again -/

def Holds (t : FileTree) (w : String × String) : Prop :=
  t.locate w.1 = .ok (t.place w.1) ∧ t.entry? (t.place w.1) = some (.file w.2.toUTF8)

theorem SavedAll.holds {t t' : FileTree} {ws : List (String × String)} (h : SavedAll t ws t')
    (hnodup : (ws.map fun w => t.place w.1).Nodup) : ∀ w ∈ ws, t'.Holds w := by
  intro w hw
  unfold Holds
  rw [place_congr h.extends'.current]
  exact ⟨h.locate w hw, h.file hnodup w hw⟩

theorem Holds.free {t : FileTree} {w : String × String} (h : t.Holds w) :
    t.entry? (t.place w.1) ≠ some .directory := by
  rw [h.2]
  nofun

theorem Holds.save {t : FileTree} {w : String × String} (h : t.Holds w) : t.save w.1 w.2 = (.ok (), t) := by
  rw [save_of_locate h.1 h.free, put_eq_self (ne_nil_of_not_directory h.free) h.2]

theorem saveAll_of_holds {t : FileTree} {ws : List (String × String)} (h : ∀ w ∈ ws, t.Holds w) :
    t.saveAll ws = .ok t := by
  induction ws with
  | nil => rfl
  | cons w ws ih =>
    obtain ⟨hw, hws⟩ := List.forall_mem_cons.1 h
    exact saveAll_cons.2 ⟨t, hw.save, ih hws⟩

/-- The tree `d` holds some texts, and then another text was put in place of the file at `l`. Saving
all of them again changes nothing, or if `l` is the place of one of them, takes the other text back. -/
theorem saveAll_again {d : FileTree} {l : Location} {bytes : ByteArray} (hl : d.entry? l ≠ some .directory)
    {ws : List (String × String)} (h : ∀ w ∈ ws, d.Holds w) :
    (d.put l (.file bytes)).saveAll ws =
      .ok (if l ∈ ws.map fun w => d.place w.1 then d else d.put l (.file bytes)) := by
  have hextends := extends_put hl (.file bytes)
  have hne := ne_nil_of_not_directory hl
  induction ws with
  | nil => rfl
  | cons w ws ih =>
    obtain ⟨hw, hws⟩ := List.forall_mem_cons.1 h
    have hlocate := hextends.locate hw.1
    refine saveAll_cons.2 ?_
    -- the one text that is put back undoes the change; all others hold already
    by_cases hplace : d.place w.1 = l
    · rw [hplace] at hlocate
      have hfree : FileTree.entry? (d.put l (.file bytes)) l ≠ some .directory := by
        rw [entry?_put hne, if_pos rfl]
        nofun
      refine ⟨d, ?_, ?_⟩
      · rw [save_of_locate hlocate hfree, put_put, put_eq_self hne (hplace ▸ hw.2)]
      · rw [saveAll_of_holds hws, List.map_cons, if_pos (List.mem_cons.2 (.inl hplace.symm))]
    · have hholds : (d.put l (.file bytes)).Holds w := by
        refine ⟨hlocate, ?_⟩
        have hsame : (d.put l (.file bytes)).place w.1 = d.place w.1 := rfl
        rw [hsame, entry?_put hne, if_neg hplace, hw.2]
      refine ⟨d.put l (.file bytes), hholds.save, ?_⟩
      rw [ih hws]
      simp only [List.map_cons, List.mem_cons, Ne.symm hplace, false_or]

end FileTree

end UpdaterBootstrap
