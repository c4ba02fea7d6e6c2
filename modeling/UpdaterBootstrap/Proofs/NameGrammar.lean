import Mathlib.Data.List.DropRight
import UpdaterBootstrap.Updater.Name

/-!
# The grammar of names

The check of a name accepts the texts of a grammar and no others. Its fault concerns the leftmost
segment that is not of the grammar.
-/

namespace UpdaterBootstrap

def IsNcName (cs : List Char) : Prop :=
  ∃ c rest, cs = c :: rest ∧ (isAlphabetic c = true ∨ c = '_') ∧
    ∀ d ∈ rest, isAlphabetic d = true ∨ isNumeric d = true ∨ d ∈ ['.', '-', '_']

structure IsLocalName (cs : List Char) : Prop where
  nonempty : cs ≠ []
  legal : ∀ c ∈ cs, c ∉ ['/', ':', '[', ']', '|', '*']
  printed : ∀ c ∈ cs, isControl c = false
  firstSolid : ∀ c, cs.head? = some c → isBlank c = false
  lastSolid : ∀ c, cs.getLast? = some c → isBlank c = false
  notPoint : cs ≠ ['.']
  notPoints : cs ≠ ['.', '.']
  notExpanded : cs.head? ≠ some '\x7b'

inductive IsSegment : List Char → Prop
  | plain {name : List Char} (hname : IsLocalName name) : IsSegment name
  | prefixed {p name : List Char} (hp : IsNcName p) (hname : IsLocalName name) : IsSegment (p ++ ':' :: name)

def IsName (cs : List Char) : Prop :=
  ∃ segments, segments ≠ [] ∧ (∀ s ∈ segments, IsSegment s) ∧ cs = ['/'].intercalate segments

/-! ## Local names -/

theorem trim_eq_self_iff {cs : List Char} :
    trim cs = cs ↔
      (∀ c, cs.head? = some c → isBlank c = false) ∧ ∀ c, cs.getLast? = some c → isBlank c = false := by
  have hstart : trimStart cs = cs ↔ ∀ c, cs.head? = some c → isBlank c = false := by
    cases cs with
    | nil => simp [trimStart]
    | cons c cs => simp [trimStart, List.dropWhile_eq_self_iff]
  have hend : trimEnd cs = cs ↔ ∀ c, cs.getLast? = some c → isBlank c = false := by
    show List.rdropWhile isBlank cs = cs ↔ _
    rw [List.rdropWhile_eq_self_iff]
    by_cases hne : cs = []
    · simp [hne]
    · simp [hne, List.getLast?_eq_some_getLast]
  rw [← hstart, ← hend]
  constructor
  · intro htrim
    -- neither of the two steps can have shortened the text
    have hprefix : cs <+: trimStart cs := by
      have := List.rdropWhile_prefix isBlank (l := trimStart cs)
      rwa [show List.rdropWhile isBlank (trimStart cs) = cs from htrim] at this
    have heq : trimStart cs = cs := (List.dropWhile_suffix isBlank).eq_of_length_le hprefix.length_le
    refine ⟨heq, ?_⟩
    rwa [trim, heq] at htrim
  · rintro ⟨heq, hlast⟩
    rw [trim, heq, hlast]

theorem isIllegalInLocalName_eq_false {c : Char} :
    isIllegalInLocalName c = false ↔ c ∉ ['/', ':', '[', ']', '|', '*'] ∧ isControl c = false := by
  rw [isIllegalInLocalName, Bool.or_eq_false_iff, ← Bool.not_eq_true, List.contains_iff_mem]
  rfl

theorem isLocalName_iff {name : List Char} :
    IsLocalName name ↔ (∀ c ∈ name, isIllegalInLocalName c = false) ∧
      (name.isEmpty || name == ['.'] || name == ['.', '.'] || trim name != name ||
        name.head? == some '\x7b') = false := by
  simp only [isIllegalInLocalName_eq_false, Bool.or_eq_false_iff, List.isEmpty_eq_false_iff,
    beq_eq_false_iff_ne, bne_eq_false_iff_eq, trim_eq_self_iff]
  constructor
  · intro h
    refine ⟨fun c hc => ⟨h.legal c hc, h.printed c hc⟩, ?_, h.notExpanded⟩
    exact ⟨⟨⟨h.nonempty, h.notPoint⟩, h.notPoints⟩, h.firstSolid, h.lastSolid⟩
  · rintro ⟨hlegal, ⟨⟨⟨hne, hpoint⟩, hpoints⟩, hfirst, hlast⟩, hexpanded⟩
    exact ⟨hne, fun c hc => (hlegal c hc).1, fun c hc => (hlegal c hc).2, hfirst, hlast, hpoint,
      hpoints, hexpanded⟩

theorem IsLocalName.colon_not_mem {name : List Char} (h : IsLocalName name) : ':' ∉ name := by
  intro hmem
  exact h.legal ':' hmem (by decide)

theorem IsLocalName.slash_not_mem {name : List Char} (h : IsLocalName name) : '/' ∉ name := by
  intro hmem
  exact h.legal '/' hmem (by decide)

/-! ## The parts of a segment -/

theorem IsNcName.class_of_mem {p : List Char} (h : IsNcName p) {c : Char} (hmem : c ∈ p) :
    isAlphabetic c = true ∨ isNumeric c = true ∨ c ∈ ['.', '-', '_'] := by
  obtain ⟨first, rest, rfl, hfirst, hrest⟩ := h
  cases hmem with
  | head =>
    obtain halpha | rfl := hfirst
    · exact .inl halpha
    · exact .inr (.inr (by simp))
  | tail _ hmem => exact hrest c hmem

theorem IsNcName.colon_not_mem {p : List Char} (h : IsNcName p) : ':' ∉ p := by
  intro hmem
  have := h.class_of_mem hmem
  revert this
  decide

theorem IsNcName.slash_not_mem {p : List Char} (h : IsNcName p) : '/' ∉ p := by
  intro hmem
  have := h.class_of_mem hmem
  revert this
  decide

theorem isNcName_iff {p : List Char} : isNcName p = true ↔ IsNcName p := by
  cases p with
  | nil => simp [isNcName, IsNcName]
  | cons c rest =>
    simp only [isNcName, IsNcName, isAlphanumeric, Bool.and_eq_true, Bool.or_eq_true, List.all_eq_true,
      beq_iff_eq]
    constructor
    · rintro ⟨hc, hrest⟩
      refine ⟨c, rest, rfl, hc, fun d hd => ?_⟩
      simpa [or_assoc] using hrest d hd
    · rintro ⟨_, _, heq, hc, hrest⟩
      obtain ⟨rfl, rfl⟩ := List.cons.inj heq
      refine ⟨hc, fun d hd => ?_⟩
      simpa [or_assoc] using hrest d hd

theorem splitPrefix_of_not_mem {segment : List Char} (h : ':' ∉ segment) :
    splitPrefix segment = (none, segment) := by
  rw [splitPrefix, List.dropWhile_eq_nil_iff.2 (bne_of_not_mem h),
    List.takeWhile_eq_self_iff.2 (bne_of_not_mem h)]

theorem splitPrefix_first {p : List Char} (h : ':' ∉ p) (name : List Char) :
    splitPrefix (p ++ ':' :: name) = (some p, name) := by
  rw [splitPrefix, List.dropWhile_append_of_pos (bne_of_not_mem h),
    List.takeWhile_append_of_pos (bne_of_not_mem h)]
  simp

/-- A segment is a whole local name or has a first colon. -/
theorem colon_cases (segment : List Char) :
    ':' ∉ segment ∨ ∃ p name, ':' ∉ p ∧ segment = p ++ ':' :: name := by
  by_cases hmem : ':' ∈ segment
  · obtain ⟨p, name, heq, hp⟩ := List.eq_append_cons_of_mem hmem
    exact .inr ⟨p, name, hp, heq⟩
  · exact .inl hmem

/-! ## Faults -/

inductive LocalPart : List Char → List Char → Prop
  | whole {segment : List Char} (h : ':' ∉ segment) : LocalPart segment segment
  | after {p name : List Char} (hp : IsNcName p) : LocalPart (p ++ ':' :: name) name

inductive NameFault.Concerns : NameFault → Nat → List Char → Prop
  | empty : Concerns .empty 0 []
  | emptySegment (position : Nat) : Concerns (.emptySegment position) position []
  | invalidPrefix (position : Nat) {p name : List Char} (hfirst : ':' ∉ p) (hp : ¬ IsNcName p) :
      Concerns (.invalidPrefix (.ofList p) (.ofList (p ++ ':' :: name))) position (p ++ ':' :: name)
  | illegalCharacter (position : Nat) {segment before after : List Char} {c : Char}
      (hpart : LocalPart segment (before ++ c :: after)) (hc : isIllegalInLocalName c = true)
      (hbefore : ∀ d ∈ before, isIllegalInLocalName d = false) :
      Concerns (.illegalCharacter c (.ofList segment)) position segment
  | invalidLocalName (position : Nat) {segment name : List Char} (hpart : LocalPart segment name)
      (hlegal : ∀ c ∈ name, isIllegalInLocalName c = false) (hname : ¬ IsLocalName name) :
      Concerns (.invalidLocalName (.ofList name)) position segment

theorem checkLocalName_ok {name : List Char} (h : IsLocalName name) (segment : List Char) :
    checkLocalName name segment = .ok () := by
  obtain ⟨hlegal, hfit⟩ := isLocalName_iff.1 h
  have hfind : name.find? isIllegalInLocalName = none := by simpa using hlegal
  simp only [checkLocalName, hfind, hfit]
  rfl

theorem checkLocalName_error {name segment : List Char} (h : ¬ IsLocalName name)
    (hpart : LocalPart segment name) :
    ∃ fault, checkLocalName name segment = (.error fault : Except NameFault Unit) ∧
      ∀ position, fault.Concerns position segment := by
  -- an illegal character is reported before the name as a whole is
  cases hfind : name.find? isIllegalInLocalName with
  | some c =>
    obtain ⟨hc, before, after, rfl, hbefore⟩ := List.find?_eq_some_iff_append.1 hfind
    refine ⟨.illegalCharacter c (.ofList segment), by simp only [checkLocalName, hfind], fun position => ?_⟩
    exact .illegalCharacter position hpart hc (by simpa using hbefore)
  | none =>
    have hlegal : ∀ c ∈ name, isIllegalInLocalName c = false := by simpa using hfind
    have hunfit := h
    rw [isLocalName_iff, not_and, Bool.not_eq_false] at hunfit
    refine ⟨.invalidLocalName (.ofList name), by simp only [checkLocalName, hfind, hunfit hlegal,
      if_true], ?_⟩
    exact fun position => .invalidLocalName position hpart hlegal h

/-! ## One segment -/

def readSegment (ns : Namespaces) (segment : List Char) : NameSegment :=
  let (before, name) := splitPrefix segment
  let namePrefix := before.map String.ofList
  ⟨namePrefix, .ofList name, ns.uri? (namePrefix.getD "")⟩

theorem toList_text_readSegment (ns : Namespaces) (segment : List Char) :
    (readSegment ns segment).text.toList = segment := by
  obtain h | ⟨p, name, h, rfl⟩ := colon_cases segment
  · simp [readSegment, splitPrefix_of_not_mem h, NameSegment.text]
  · simp [readSegment, splitPrefix_first h, NameSegment.text]

theorem validateSegment_ok (ns : Namespaces) {segment : List Char} (h : IsSegment segment) :
    validateSegment ns segment = .ok (readSegment ns segment) := by
  rw [validateSegment, readSegment]
  cases h with
  | plain hname =>
    simp only [splitPrefix_of_not_mem hname.colon_not_mem, checkLocalName_ok hname]
    rfl
  | prefixed hp hname =>
    simp only [splitPrefix_first hp.colon_not_mem, checkLocalName_ok hname, isNcName_iff.2 hp]
    rfl

theorem validateSegment_error (ns : Namespaces) {segment : List Char} (h : ¬ IsSegment segment) :
    ∃ fault, validateSegment ns segment = .error fault ∧ ∀ position, fault.Concerns position segment := by
  rw [validateSegment]
  obtain hcolon | ⟨p, name, hcolon, rfl⟩ := colon_cases segment
  · have hname : ¬ IsLocalName segment := fun hname => h (.plain hname)
    obtain ⟨fault, heq, hfault⟩ := checkLocalName_error hname (.whole hcolon)
    refine ⟨fault, ?_, hfault⟩
    simp only [splitPrefix_of_not_mem hcolon, heq]
    rfl
  · by_cases hp : IsNcName p
    · have hname : ¬ IsLocalName name := fun hname => h (.prefixed hp hname)
      obtain ⟨fault, heq, hfault⟩ := checkLocalName_error hname (.after hp)
      refine ⟨fault, ?_, hfault⟩
      simp only [splitPrefix_first hcolon, heq, isNcName_iff.2 hp]
      rfl
    · have hcheck : isNcName p = false := by rwa [← Bool.not_eq_true, isNcName_iff]
      refine ⟨.invalidPrefix (.ofList p) (.ofList (p ++ ':' :: name)), ?_,
        fun n => .invalidPrefix n hcolon hp⟩
      simp only [splitPrefix_first hcolon, hcheck]
      rfl

/-! ## All segments -/

theorem IsSegment.ne_nil {segment : List Char} (h : IsSegment segment) : segment ≠ [] := by
  cases h with
  | plain hname => exact hname.nonempty
  | prefixed _ _ => simp

theorem validateSegments_ok (ns : Namespaces) {segments : List (List Char)} (h : ∀ s ∈ segments, IsSegment s)
    (position : Nat) : validateSegments ns position segments = .ok (segments.map (readSegment ns)) := by
  induction segments generalizing position with
  | nil => rfl
  | cons segment segments ih =>
    obtain ⟨hfirst, hrest⟩ := List.forall_mem_cons.1 h
    simp only [validateSegments, List.isEmpty_eq_false_iff.2 hfirst.ne_nil,
      validateSegment_ok ns hfirst, ih hrest]
    rfl

/-- The segments before the fault are all of the grammar. -/
theorem validateSegments_error (ns : Namespaces) {segments : List (List Char)}
    (h : ¬ ∀ s ∈ segments, IsSegment s)
    (position : Nat) : ∃ fault before segment after, validateSegments ns position segments = .error fault ∧
      segments = before ++ segment :: after ∧ (∀ s ∈ before, IsSegment s) ∧ ¬ IsSegment segment ∧
      fault.Concerns (position + before.length) segment := by
  induction segments generalizing position with
  | nil => simp at h
  | cons segment segments ih =>
    by_cases hfirst : IsSegment segment
    · have hrest : ¬ ∀ s ∈ segments, IsSegment s :=
        fun hrest => h (List.forall_mem_cons.2 ⟨hfirst, hrest⟩)
      obtain ⟨fault, before, bad, after, heq, rfl, hbefore, hbad, hfault⟩ := ih hrest (position + 1)
      refine ⟨fault, segment :: before, bad, after, ?_, rfl, List.forall_mem_cons.2 ⟨hfirst, hbefore⟩,
        hbad, ?_⟩
      · simp only [validateSegments, List.isEmpty_eq_false_iff.2 hfirst.ne_nil,
          validateSegment_ok ns hfirst, heq]
        rfl
      -- the position counts the segments that are passed
      · rwa [List.length_cons, Nat.add_comm before.length, ← Nat.add_assoc]
    · by_cases hempty : segment = []
      · subst hempty
        exact ⟨.emptySegment position, [], [], segments, rfl, rfl, nofun, hfirst, .emptySegment position⟩
      · obtain ⟨fault, heq, hfault⟩ := validateSegment_error ns hfirst
        refine ⟨fault, [], segment, segments, ?_, rfl, nofun, hfirst, hfault position⟩
        simp only [validateSegments, List.isEmpty_eq_false_iff.2 hempty, heq]
        rfl

/-! ## Names -/

theorem IsSegment.slash_not_mem {segment : List Char} (h : IsSegment segment) : '/' ∉ segment := by
  cases h with
  | plain hname => exact hname.slash_not_mem
  | prefixed hp hname => simp [hp.slash_not_mem, hname.slash_not_mem]

theorem isName_iff {cs : List Char} : IsName cs ↔ ∀ s ∈ splitOn '/' cs, IsSegment s := by
  constructor
  · rintro ⟨segments, hne, hsegments, rfl⟩
    rwa [splitOn_eq, List.splitOn_intercalate '/' (fun s hs => (hsegments s hs).slash_not_mem) hne]
  · intro h
    refine ⟨splitOn '/' cs, splitOn_ne_nil '/' cs, h, ?_⟩
    rw [splitOn_eq, List.intercalate_splitOn]

theorem validateName_ok (ns : Namespaces) {name : String} (h : IsName name.toList) :
    validateName ns name = .ok ((splitOn '/' name.toList).map (readSegment ns)) := by
  have hsegments := isName_iff.1 h
  by_cases hempty : name = ""
  · subst hempty
    have : IsSegment [] := hsegments [] List.mem_cons_self
    exact absurd rfl this.ne_nil
  · simp [validateName, hempty, validateSegments_ok ns hsegments]

theorem validateName_error (ns : Namespaces) {name : String} (h : ¬ IsName name.toList) :
    ∃ fault before segment after, validateName ns name = .error fault ∧
      splitOn '/' name.toList = before ++ segment :: after ∧ (∀ s ∈ before, IsSegment s) ∧
        ¬ IsSegment segment ∧
      fault.Concerns before.length segment := by
  rw [isName_iff] at h
  by_cases hempty : name = ""
  · subst hempty
    exact ⟨.empty, [], [], [], rfl, rfl, nofun, fun hsegment => hsegment.ne_nil rfl, .empty⟩
  · obtain ⟨fault, before, segment, after, heq, hsplit, hbefore, hbad, hfault⟩ :=
      validateSegments_error ns h 0
    rw [Nat.zero_add] at hfault
    exact ⟨fault, before, segment, after, by simp [validateName, hempty, heq], hsplit, hbefore, hbad, hfault⟩

theorem text_readSegments (ns : Namespaces) (name : String) :
    NamePath.text ((splitOn '/' name.toList).map (readSegment ns)) = name := by
  apply String.toList_injective
  have hmap : (splitOn '/' name.toList).map (fun s => (readSegment ns s).text.toList) =
      splitOn '/' name.toList := by
    simp [toList_text_readSegment]
  rw [NamePath.text, String.toList_intercalate, List.map_map, List.map_map]
  show ['/'].intercalate ((splitOn '/' name.toList).map fun s => (readSegment ns s).text.toList) = name.toList
  rw [hmap, splitOn_eq, List.intercalate_splitOn]

def NameSegment.parts (s : NameSegment) : Option String × String :=
  (s.namePrefix, s.localName)

theorem validateName_spec (ns : Namespaces) (name : String) :
    ((∃ path, validateName ns name = .ok path) ↔ IsName name.toList) ∧
    (∀ path, validateName ns name = .ok path → path.text = name ∧
      ∀ ns', ∃ path', validateName ns' name = .ok path' ∧
        path'.map NameSegment.parts = path.map NameSegment.parts) ∧
    ∀ fault, validateName ns name = .error fault → ∃ before segment after,
      name.toList = ['/'].intercalate (before ++ segment :: after) ∧
        (∀ s ∈ before ++ segment :: after, '/' ∉ s) ∧
      (∀ s ∈ before, IsSegment s) ∧ ¬ IsSegment segment ∧ fault.Concerns before.length segment := by
  by_cases hname : IsName name.toList
  · refine ⟨⟨fun _ => hname, fun _ => ⟨_, validateName_ok ns hname⟩⟩, ?_, ?_⟩
    · intro path hpath
      obtain rfl := Except.ok.inj ((validateName_ok ns hname).symm.trans hpath)
      refine ⟨text_readSegments ns name, fun ns' => ⟨_, validateName_ok ns' hname, ?_⟩⟩
      simp [NameSegment.parts, readSegment]
    · intro fault hfault
      cases (validateName_ok ns hname).symm.trans hfault
  · obtain ⟨fault, before, segment, after, heq, hsplit, hbefore, hbad, hconcerns⟩ :=
      validateName_error ns hname
    refine ⟨⟨?_, fun h => absurd h hname⟩, ?_, ?_⟩
    · rintro ⟨path, hpath⟩
      cases heq.symm.trans hpath
    · intro path hpath
      cases heq.symm.trans hpath
    · intro fault' hfault
      obtain rfl := Except.error.inj (heq.symm.trans hfault)
      refine ⟨before, segment, after, ?_, ?_, hbefore, hbad, hconcerns⟩
      · rw [← hsplit, splitOn_eq, List.intercalate_splitOn]
      · rw [← hsplit]
        exact fun s => not_mem_of_mem_splitOn

end UpdaterBootstrap
