import Mathlib.Data.List.Basic
import UpdaterBootstrap.Files.Path

/-!
# Paths with names after them

A path joined to another leads on from where that leads, whether or not the first one ends with a
slash (`exists_pieces_join`). The document of a script has the script's names, with another extension
in the last one, so scripts with one extension have different documents.
-/

namespace UpdaterBootstrap

/-! ## Names -/

def IsFileName (s : String) : Prop :=
  s ≠ "" ∧ s ≠ "." ∧ s ≠ ".." ∧ '/' ∉ s.toList

instance (s : String) : Decidable (IsFileName s) :=
  inferInstanceAs (Decidable (_ ∧ _ ∧ _ ∧ _))

namespace Path

/-! ## Pieces -/

theorem pieces_ne_nil (path : String) : pieces path ≠ [] := by
  unfold pieces
  rw [Ne, List.map_eq_nil_iff]
  exact splitOn_ne_nil '/' path.toList

theorem pieces_append_slash (a b : String) : pieces (a ++ "/" ++ b) = pieces a ++ pieces b := by
  unfold pieces
  rw [String.toList_append, String.toList_append, List.append_assoc, ← List.map_append, ← splitOn_append]
  rfl

theorem pieces_name {name : String} (h : '/' ∉ name.toList) : pieces name = [name] := by
  unfold pieces
  rw [splitOn_of_not_mem h, List.map_singleton, String.ofList_toList]

theorem pieces_intercalate : ∀ {names : List String}, names ≠ [] → (∀ n ∈ names, '/' ∉ n.toList) →
    pieces ("/".intercalate names) = names
  | [], hne, _ => absurd rfl hne
  | [name], _, h => by
    rw [String.intercalate_singleton]
    exact pieces_name (h name List.mem_cons_self)
  | name :: next :: names, _, h => by
    rw [String.intercalate_cons_cons, pieces_append_slash, pieces_name (h name List.mem_cons_self),
      pieces_intercalate (List.cons_ne_nil _ _) fun n hn => h n (List.mem_cons_of_mem _ hn)]
    rfl

theorem isAbsolute_append {a : String} (h : a ≠ "") (b : String) : isAbsolute (a ++ b) = isAbsolute a := by
  unfold isAbsolute
  rw [String.toList_append]
  cases ha : a.toList with
  | nil => exact absurd (String.toList_inj.1 ha) h
  | cons c cs => rfl

theorem isAbsolute_of_no_slash {path : String} (h : '/' ∉ path.toList) : isAbsolute path = false := by
  unfold isAbsolute
  cases hcs : path.toList with
  | nil => rfl
  | cons c cs =>
    rw [hcs, List.mem_cons, not_or] at h
    rw [List.head?_cons, beq_eq_false_iff_ne, Ne, Option.some.injEq]
    exact Ne.symm h.1

theorem isAbsolute_intercalate : ∀ {names : List String}, (∀ n ∈ names, IsFileName n) →
    isAbsolute ("/".intercalate names) = false
  | [], _ => rfl
  | [name], h => by
    rw [String.intercalate_singleton]
    exact isAbsolute_of_no_slash (h name List.mem_cons_self).2.2.2
  | name :: next :: names, h => by
    obtain ⟨hne, -, -, hslash⟩ := h name List.mem_cons_self
    rw [String.intercalate_cons_cons, String.append_assoc, isAbsolute_append hne]
    exact isAbsolute_of_no_slash hslash

/-! ## Joining -/

theorem join_empty (rest : String) : join "" rest = rest := by
  unfold join
  rw [if_pos (by simp)]

theorem isAbsolute_join {base rest : String} (h : isAbsolute rest = false) :
    isAbsolute (join base rest) = isAbsolute base := by
  by_cases hbase : base = ""
  · rw [hbase, join_empty, h]
    rfl
  · unfold join
    rw [if_neg (by simp [h, hbase])]
    split
    · exact isAbsolute_append hbase rest
    · rw [String.append_assoc]
      exact isAbsolute_append hbase _

/-- The pieces of a joined path are those of its parts, except that an empty one at the end of the
first part is lost. -/
theorem exists_pieces_join (base : String) :
    ∃ ps, (pieces base = ps ∨ pieces base = ps ++ [""]) ∧ (base ≠ "" → ps ≠ []) ∧
      ∀ rest, isAbsolute rest = false → pieces (join base rest) = ps ++ pieces rest := by
  by_cases hbase : base = ""
  · rw [hbase]
    exact ⟨[], .inr rfl, fun hne => absurd rfl hne, fun rest _ => congrArg pieces (join_empty rest)⟩
  by_cases hlast : base.toList.getLast? = some '/'
  · obtain ⟨cs, hcs⟩ := List.getLast?_eq_some_iff.1 hlast
    have hsplit : base = String.ofList cs ++ "/" := by
      rw [← String.toList_inj, hcs, String.toList_append, String.toList_ofList]
      rfl
    refine ⟨pieces (String.ofList cs), .inr ?_, fun _ => pieces_ne_nil _, fun rest hrest => ?_⟩
    · have := pieces_append_slash (String.ofList cs) ""
      rwa [String.append_empty, ← hsplit] at this
    · unfold join
      rw [if_neg (by simp [hrest, hbase]), if_pos (by simp [hlast]), hsplit]
      exact pieces_append_slash _ rest
  · refine ⟨pieces base, .inl rfl, fun _ => pieces_ne_nil base, fun rest hrest => ?_⟩
    unfold join
    rw [if_neg (by simp [hrest, hbase]), if_neg (by simp [hlast])]
    exact pieces_append_slash base rest

theorem join_ne_empty {base : String} (h : base ≠ "") (rest : String) (hrest : isAbsolute rest = false) :
    join base rest ≠ "" := by
  unfold join
  rw [if_neg (by simp [hrest, h])]
  split
  · simp [h]
  · simp [h]

theorem join_name_ne_empty (base : String) {name : String} (h : IsFileName name) : join base name ≠ "" := by
  by_cases hbase : base = ""
  · rw [hbase, join_empty]
    exact h.1
  · exact join_ne_empty hbase name (isAbsolute_of_no_slash h.2.2.2)

/-! ## Parts -/

theorem innerPart?_empty : innerPart? "" = none := rfl

theorem innerPart?_name {name : String} (h : IsFileName name) : innerPart? name = some (.name name) := by
  obtain ⟨hempty, hpoint, hparent, -⟩ := h
  unfold innerPart?
  rw [if_neg (by simp [hempty, hpoint]), if_neg (by simp [hparent])]

theorem parts_of_relative {path : String} (habsolute : isAbsolute path = false)
    (hhere : (pieces path).head? ≠ some ".") :
    parts path = (pieces path).filterMap innerPart? := by
  unfold parts
  rw [habsolute, if_neg Bool.false_ne_true, if_neg (by simpa using hhere)]

/-- A path that leads on from another adds its parts to those of the first. -/
theorem parts_join {base rest : String} (habsolute : isAbsolute rest = false)
    (hhere : (pieces rest).head? ≠ some ".") : parts (join base rest) = parts base ++ parts rest := by
  rw [parts_of_relative habsolute hhere]
  by_cases hbase : base = ""
  · rw [hbase, join_empty]
    exact parts_of_relative habsolute hhere
  obtain ⟨ps, hps, hne, hjoin⟩ := exists_pieces_join base
  have hjoin := hjoin rest habsolute
  have hinner : (pieces (join base rest)).filterMap innerPart? =
      (pieces base).filterMap innerPart? ++ (pieces rest).filterMap innerPart? := by
    rw [hjoin, List.filterMap_append]
    rcases hps with hps | hps
    · rw [hps]
    · rw [hps, List.filterMap_append, List.filterMap_cons_none innerPart?_empty, List.filterMap_nil,
        List.append_nil]
  have hhead : (pieces (join base rest)).head? = (pieces base).head? := by
    obtain ⟨p, ps, rfl⟩ := List.exists_cons_of_ne_nil (hne hbase)
    rw [hjoin]
    rcases hps with hps | hps <;> rw [hps] <;> rfl
  unfold parts
  rw [hinner, hhead, isAbsolute_join habsolute]
  dsimp only
  split
  · rfl
  split <;> rfl

theorem filterMap_innerPart? {names : List String} (h : ∀ n ∈ names, IsFileName n) :
    names.filterMap innerPart? = names.map .name := by
  induction names with
  | nil => rfl
  | cons name names ih =>
    obtain ⟨hname, hnames⟩ := List.forall_mem_cons.1 h
    rw [List.filterMap_cons_some (innerPart?_name hname), ih hnames, List.map_cons]

theorem head?_pieces_intercalate {names : List String} (hne : names ≠ []) (h : ∀ n ∈ names, IsFileName n) :
    (pieces ("/".intercalate names)).head? ≠ some "." := by
  rw [pieces_intercalate hne fun n hn => (h n hn).2.2.2]
  intro hhead
  exact (h "." (List.mem_of_head? hhead)).2.1 rfl

theorem parts_intercalate {names : List String} (hne : names ≠ []) (h : ∀ n ∈ names, IsFileName n) :
    parts ("/".intercalate names) = names.map .name := by
  rw [parts_of_relative (isAbsolute_intercalate h) (head?_pieces_intercalate hne h),
    pieces_intercalate hne fun n hn => (h n hn).2.2.2, filterMap_innerPart? h]

theorem parts_join_names (base : String) {names : List String} (hne : names ≠ [])
    (h : ∀ n ∈ names, IsFileName n) :
    parts (join base ("/".intercalate names)) = parts base ++ names.map .name := by
  rw [parts_join (isAbsolute_intercalate h) (head?_pieces_intercalate hne h), parts_intercalate hne h]

theorem parts_join_name (base : String) {name : String} (hname : IsFileName name) :
    parts (join base name) = parts base ++ [.name name] := by
  have := parts_join_names base (List.cons_ne_nil name []) (List.forall_mem_singleton.2 hname)
  rwa [String.intercalate_singleton] at this

theorem parts_joinNames {base : String} (hbase : base ≠ "") :
    ∀ {names : List String}, (∀ n ∈ names, IsFileName n) →
    parts (joinNames base names) = parts base ++ names.map .name := by
  intro names
  induction names generalizing base with
  | nil =>
    intro _
    rw [List.map_nil, List.append_nil]
    rfl
  | cons name names ih =>
    intro h
    have hname := h name List.mem_cons_self
    have hjoin := join_ne_empty hbase name (isAbsolute_of_no_slash hname.2.2.2)
    have := ih hjoin fun n hn => h n (List.mem_cons_of_mem _ hn)
    rw [parts_join_name base hname, List.append_assoc] at this
    exact this

theorem filterMap_name? (names : List String) :
    (names.map PathPart.name).filterMap PathPart.name? = names := by
  induction names with
  | nil => rfl
  | cons name names ih => exact congrArg (name :: ·) ih

/-! ## Names below a directory -/

theorem namesBelow?_eq_some_iff {base file : String} {names : List String} :
    namesBelow? base file = some names ↔
    ∃ rest, parts file = parts base ++ rest ∧ rest.filterMap PathPart.name? = names ∧ names ≠ [] := by
  unfold namesBelow?
  cases hrest : (parts base).isPrefixOf? (parts file) with
  | none =>
    refine ⟨nofun, fun ⟨rest, happend, _⟩ => ?_⟩
    rw [List.isPrefixOf?_eq_some_iff_append_eq.2 happend.symm] at hrest
    cases hrest
  | some rest =>
    have happend := (List.isPrefixOf?_eq_some_iff_append_eq.1 hrest).symm
    dsimp only
    constructor
    · intro h
      split at h
      · cases h
      rename_i hne
      obtain rfl := Option.some.inj h
      exact ⟨rest, happend, rfl, by simpa using hne⟩
    · rintro ⟨rest', happend', rfl, hne⟩
      obtain rfl := List.append_cancel_left (happend.symm.trans happend')
      rw [if_neg (by simpa using hne)]

theorem documentName?_of_names {base file : String} {names : List String} (hne : names ≠ [])
    (h : parts file = parts base ++ names.map .name) :
    documentName? base file = some ("/".intercalate (withExtension "yaml" names)) := by
  unfold documentName?
  rw [namesBelow?_eq_some_iff.2 ⟨_, h, filterMap_name? names, hne⟩, Option.map_some]

theorem documentName?_joinNames {base : String} (hbase : base ≠ "") {names : List String} (hne : names ≠ [])
    (h : ∀ n ∈ names, IsFileName n) :
    documentName? base (joinNames base names) = some ("/".intercalate (withExtension "yaml" names)) :=
  documentName?_of_names hne (parts_joinNames hbase h)

/-! ## Extensions -/

/-- A name with an extension is the rest of it, a point and the extension. -/
theorem eq_of_extension? {name ext : String} (h : extension? name = some ext) :
    name = stem name ++ "." ++ ext := by
  unfold extension? at h
  unfold stem
  unfold splitExtension at h ⊢
  dsimp only at h ⊢
  split at h
  · rename_i d c before hdrop
    have hd : d = '.' := by
      have := List.head?_dropWhile_not (· != '.') name.toList.reverse
      rw [hdrop] at this
      simpa using this
    have hname := List.takeWhile_append_dropWhile (p := (· != '.')) (l := name.toList.reverse)
    rw [hdrop, hd] at hname
    have hchars := congrArg List.reverse hname
    rw [List.reverse_reverse, List.reverse_append, List.reverse_cons] at hchars
    rw [← Option.some.inj h, ← String.toList_inj]
    simp only [String.toList_append, String.toList_ofList]
    exact hchars.symm
  · cases h

theorem stem_of_extension? {name : String} (h : extension? name = none) : stem name = name := by
  unfold extension? splitExtension at h
  unfold stem splitExtension
  dsimp only at h ⊢
  split at h
  · cases h
  · rfl

theorem stem_isPrefix (name : String) : (stem name).toList <+: name.toList := by
  cases h : extension? name with
  | some ext =>
    have hname := eq_of_extension? h
    refine ⟨("." ++ ext).toList, ?_⟩
    rw [← String.toList_append, ← String.append_assoc, ← hname]
  | none =>
    simp only [stem_of_extension? h, List.prefix_rfl]

theorem isFileName_stem {name : String} (h : IsFileName name) : IsFileName (stem name ++ "." ++ "yaml") := by
  have hlength : (stem name ++ "." ++ "yaml").toList.length = (stem name).toList.length + 5 := by
    rw [String.toList_append, String.toList_append, List.length_append, List.length_append]
    rfl
  have short {s : String} (hs : s.toList.length < 5) : stem name ++ "." ++ "yaml" ≠ s := by
    rintro rfl
    omega
  refine ⟨short (by decide), short (by decide), short (by decide), ?_⟩
  rw [String.toList_append, String.toList_append, List.mem_append, List.mem_append, not_or, not_or]
  exact ⟨⟨fun hmem => h.2.2.2 ((stem_isPrefix name).subset hmem), by decide⟩, by decide⟩

theorem isFileName_withExtension : ∀ {names : List String}, (∀ n ∈ names, IsFileName n) →
    ∀ n ∈ withExtension "yaml" names, IsFileName n
  | [], h => h
  | [name], h => by
    intro n hn
    rw [List.mem_singleton.1 hn]
    exact isFileName_stem (h name List.mem_cons_self)
  | name :: next :: names, h => by
    intro n hn
    rcases List.mem_cons.1 hn with rfl | hn
    · exact h _ List.mem_cons_self
    · exact isFileName_withExtension (fun m hm => h m (List.mem_cons_of_mem _ hm)) n hn

theorem withExtension_ne_nil {names : List String} (h : names ≠ []) : withExtension "yaml" names ≠ [] := by
  match names, h with
  | [name], _ => exact List.cons_ne_nil _ _
  | name :: next :: names, _ => exact List.cons_ne_nil _ _

theorem withExtension_append (names : List String) (name : String) :
    withExtension "yaml" (names ++ [name]) = names ++ [stem name ++ "." ++ "yaml"] := by
  induction names with
  | nil => rfl
  | cons n names ih =>
    cases names with
    | nil => rfl
    | cons m names => exact congrArg (n :: ·) ih

theorem name_injective {name name' : String} (hext : extension? name = extension? name')
    (hstem : stem name = stem name') : name = name' := by
  cases h : extension? name with
  | some ext => rw [eq_of_extension? h, eq_of_extension? (hext.symm.trans h), hstem]
  | none => rw [← stem_of_extension? h, ← stem_of_extension? (hext.symm.trans h), hstem]

/-- The extension that is replaced is the same, so nothing is lost. -/
theorem withExtension_injective {names names' : List String} (hne : names ≠ []) (hne' : names' ≠ [])
    (hext : names.getLast?.bind extension? = names'.getLast?.bind extension?)
    (h : withExtension "yaml" names = withExtension "yaml" names') : names = names' := by
  obtain ⟨before, name, rfl⟩ := names.eq_nil_or_concat'.resolve_left hne
  obtain ⟨before', name', rfl⟩ := names'.eq_nil_or_concat'.resolve_left hne'
  rw [List.getLast?_concat, List.getLast?_concat] at hext
  rw [withExtension_append, withExtension_append] at h
  obtain ⟨rfl, hnames⟩ := List.append_inj' h rfl
  have hstem : stem name = stem name' :=
    (String.append_left_inj _).1 ((String.append_left_inj _).1 (List.singleton_inj.1 hnames))
  rw [name_injective hext hstem]

end Path

end UpdaterBootstrap
