import UpdaterBootstrap.Files.Tree
import UpdaterBootstrap.Proofs.JoinedPath
import UpdaterBootstrap.Proofs.Lookup

/-!
# Where paths lead

A path has a place in a tree that does not depend on what is there. A walk that succeeds ends at that
place, and it succeeds in every tree that has the same directories (`Extends.locate`).
-/

namespace UpdaterBootstrap

namespace FileTree

/-- Where the steps of a path lead, be there directories on the way or not. -/
def place (t : FileTree) (path : String) : Location :=
  (Path.pieces path).foldl stepFrom (t.start path)

theorem place_congr {t t' : FileTree} (h : t'.current = t.current) (path : String) :
    t'.place path = t.place path := by
  unfold place start
  rw [h]

/-! ## Steps -/

theorem stepFrom_empty (l : Location) : stepFrom l "" = l := rfl

theorem stepFrom_name (l : Location) {name : String} (h : IsFileName name) :
    stepFrom l name = l ++ [name] := by
  obtain ⟨hempty, hpoint, hparent, -⟩ := h
  unfold stepFrom
  rw [if_neg (by simp [hempty, hpoint]), if_neg (by simpa using hparent)]

theorem foldl_stepFrom_names (l : Location) {names : List String} (h : ∀ n ∈ names, IsFileName n) :
    names.foldl stepFrom l = l ++ names := by
  induction names generalizing l with
  | nil => rw [List.append_nil]; rfl
  | cons name names ih =>
    rw [List.foldl_cons, ih _ fun n hn => h n (List.mem_cons_of_mem _ hn),
      stepFrom_name l (h name List.mem_cons_self), List.append_assoc]
    rfl

theorem place_join (t : FileTree) (base : String) {rest : String} (h : Path.isAbsolute rest = false) :
    t.place (Path.join base rest) = (Path.pieces rest).foldl stepFrom (t.place base) := by
  obtain ⟨ps, hps, -, hjoin⟩ := Path.exists_pieces_join base
  unfold place start
  rw [hjoin rest h, Path.isAbsolute_join h, List.foldl_append]
  rcases hps with hps | hps
  · rw [hps]
  · rw [hps, List.foldl_append, List.foldl_cons, List.foldl_nil, stepFrom_empty]

theorem place_join_names (t : FileTree) (base : String) {names : List String} (hne : names ≠ [])
    (h : ∀ n ∈ names, IsFileName n) :
    t.place (Path.join base ("/".intercalate names)) = t.place base ++ names := by
  rw [place_join t base (Path.isAbsolute_intercalate h),
    Path.pieces_intercalate hne fun n hn => (h n hn).2.2.2, foldl_stepFrom_names _ h]

theorem place_join_name (t : FileTree) (base : String) {name : String} (h : IsFileName name) :
    t.place (Path.join base name) = t.place base ++ [name] := by
  have := place_join_names t base (List.cons_ne_nil name []) fun n hn => List.mem_singleton.1 hn ▸ h
  rwa [String.intercalate_singleton] at this

/-! ## Walks -/

theorem walk_cons {t : FileTree} {l l' : Location} {p : String} {ps : List String} :
    t.walk l (p :: ps) = .ok l' ↔ t.entry? l = some .directory ∧ t.walk (stepFrom l p) ps = .ok l' := by
  rw [walk]
  constructor
  · intro h
    split at h
    · rename_i hdirectory
      exact ⟨hdirectory, h⟩
    · cases h
    · cases h
  · rintro ⟨hdirectory, h⟩
    rw [hdirectory]
    exact h

theorem eq_foldl_of_walk {t : FileTree} {ps : List String} {l l' : Location} (h : t.walk l ps = .ok l') :
    l' = ps.foldl stepFrom l := by
  induction ps generalizing l with
  | nil => exact (Except.ok.inj h).symm
  | cons p ps ih => exact ih (walk_cons.1 h).2

theorem walk_append {t : FileTree} : ∀ {ps qs : List String} {l l' : Location},
    t.walk l (ps ++ qs) = .ok l' ↔ ∃ m, t.walk l ps = .ok m ∧ t.walk m qs = .ok l'
  | [], qs, l, l' => ⟨fun h => ⟨l, rfl, h⟩, fun ⟨_, hm, h⟩ => Except.ok.inj hm ▸ h⟩
  | p :: ps, qs, l, l' => by
    rw [List.cons_append, walk_cons, walk_append]
    constructor
    · rintro ⟨hdirectory, m, hm, h⟩
      exact ⟨m, walk_cons.2 ⟨hdirectory, hm⟩, h⟩
    · rintro ⟨m, hm, h⟩
      exact ⟨(walk_cons.1 hm).1, m, (walk_cons.1 hm).2, h⟩

theorem locate_eq_ok {t : FileTree} {path : String} {l : Location} :
    t.locate path = .ok l ↔ path ≠ "" ∧ t.walk (t.start path) (Path.pieces path) = .ok l := by
  unfold locate
  by_cases h : path = ""
  · rw [if_pos (by simp [h])]
    exact ⟨nofun, fun hne => absurd h hne.1⟩
  · rw [if_neg (by simpa using h)]
    exact ⟨fun hwalk => ⟨h, hwalk⟩, fun hwalk => hwalk.2⟩

theorem eq_place_of_locate {t : FileTree} {path : String} {l : Location} (h : t.locate path = .ok l) :
    l = t.place path :=
  eq_foldl_of_walk (locate_eq_ok.1 h).2

/-- Below a directory that is found, its files are found. -/
theorem locate_join_name {t : FileTree} {base name : String} {l : Location} (hbase : t.locate base = .ok l)
    (hl : t.entry? l = some .directory) (hname : IsFileName name) :
    t.locate (Path.join base name) = .ok (l ++ [name]) := by
  obtain ⟨hne, hwalk⟩ := locate_eq_ok.1 hbase
  have habsolute := Path.isAbsolute_of_no_slash hname.2.2.2
  obtain ⟨ps, hps, -, hjoin⟩ := Path.exists_pieces_join base
  refine locate_eq_ok.2 ⟨Path.join_name_ne_empty base hname, ?_⟩
  unfold start at hwalk ⊢
  rw [hjoin name habsolute, Path.isAbsolute_join habsolute, Path.pieces_name hname.2.2.2, walk_append]
  have hps' : t.walk (if Path.isAbsolute base = true then [] else t.current) ps = .ok l := by
    rcases hps with hps | hps
    · rwa [hps] at hwalk
    · rw [hps, walk_append] at hwalk
      obtain ⟨m, hm, hlast⟩ := hwalk
      rw [hm, ← Except.ok.inj (walk_cons.1 hlast).2, stepFrom_empty]
  exact ⟨l, hps', walk_cons.2 ⟨hl, by rw [stepFrom_name l hname]; rfl⟩⟩

/-- Where a path below a directory leads, the files of that directory are found. -/
theorem locate_join_sibling {t : FileTree} {base rest name : String} {l : Location}
    (hrest : Path.isAbsolute rest = false)
    (hname : IsFileName name) (h : t.locate (Path.join base rest) = .ok l) :
    t.locate (Path.join base name) = .ok (t.place base ++ [name]) := by
  have habsolute := Path.isAbsolute_of_no_slash hname.2.2.2
  have hwalk := (locate_eq_ok.1 h).2
  obtain ⟨ps, hps, -, hjoin⟩ := Path.exists_pieces_join base
  unfold start at hwalk
  rw [hjoin rest hrest, Path.isAbsolute_join hrest, walk_append] at hwalk
  obtain ⟨m, hm, hwalk⟩ := hwalk
  have hdirectory : t.entry? m = some .directory := by
    obtain ⟨q, qs, hqs⟩ := List.exists_cons_of_ne_nil (Path.pieces_ne_nil rest)
    rw [hqs] at hwalk
    exact (walk_cons.1 hwalk).1
  have hlast : t.walk m [name] = .ok (m ++ [name]) :=
    walk_cons.2 ⟨hdirectory, by rw [stepFrom_name m hname]; rfl⟩
  have hlocate : t.locate (Path.join base name) = .ok (m ++ [name]) := by
    refine locate_eq_ok.2 ⟨Path.join_name_ne_empty base hname, ?_⟩
    unfold start
    rw [hjoin name habsolute, Path.isAbsolute_join habsolute, Path.pieces_name hname.2.2.2, walk_append]
    exact ⟨m, hm, hlast⟩
  rw [hlocate, eq_place_of_locate hlocate, place_join_name t base hname]

/-! ## Trees with more directories -/

/-- `t'` has the directories of `t`, and paths start at the same place in it. -/
structure Extends (t t' : FileTree) : Prop where
  current : t'.current = t.current
  directories : ∀ l, t.entry? l = some .directory → t'.entry? l = some .directory

theorem Extends.refl (t : FileTree) : Extends t t :=
  ⟨rfl, fun _ h => h⟩

theorem Extends.trans {t t' t'' : FileTree} (h : Extends t t') (h' : Extends t' t'') : Extends t t'' :=
  ⟨h'.current.trans h.current, fun l hl => h'.directories l (h.directories l hl)⟩

theorem Extends.walk {t t' : FileTree} (h : Extends t t') {ps : List String} {l l' : Location}
    (hwalk : t.walk l ps = .ok l') : t'.walk l ps = .ok l' := by
  induction ps generalizing l with
  | nil => exact hwalk
  | cons p ps ih =>
    obtain ⟨hdirectory, hwalk⟩ := walk_cons.1 hwalk
    exact walk_cons.2 ⟨h.directories l hdirectory, ih hwalk⟩

theorem Extends.locate {t t' : FileTree} (h : Extends t t') {path : String} {l : Location}
    (hlocate : t.locate path = .ok l) : t'.locate path = .ok l := by
  obtain ⟨hne, hwalk⟩ := locate_eq_ok.1 hlocate
  have hwalk := h.walk hwalk
  unfold start at hwalk
  rw [← h.current] at hwalk
  exact locate_eq_ok.2 ⟨hne, hwalk⟩

theorem Extends.isDirectory {t t' : FileTree} (h : Extends t t') {path : String}
    (hd : t.isDirectory path = true) :
    t'.isDirectory path = true := by
  unfold FileTree.isDirectory at? at hd ⊢
  cases hl : t.locate path with
  | error fault =>
    rw [hl] at hd
    cases hd
  | ok l =>
    rw [hl] at hd
    rw [h.locate hl, beq_iff_eq]
    exact h.directories l (by simpa using hd)

theorem locate_of_isDirectory {t : FileTree} {path : String} (h : t.isDirectory path = true) :
    t.locate path = .ok (t.place path) ∧ t.entry? (t.place path) = some .directory := by
  unfold isDirectory at? at h
  cases hl : t.locate path with
  | error fault =>
    rw [hl] at h
    cases h
  | ok l =>
    rw [hl] at h
    rw [← eq_place_of_locate hl]
    exact ⟨rfl, by simpa using h⟩

end FileTree

end UpdaterBootstrap
