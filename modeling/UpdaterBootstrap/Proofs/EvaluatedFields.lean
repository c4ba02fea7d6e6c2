import Mathlib.Data.List.Forall2
import Mathlib.Data.List.Nodup
import UpdaterBootstrap.Annotation.Field
import UpdaterBootstrap.Proofs.Outcome

/-!
# Values of fields

Evaluation gives every field of the schema its value exactly if the arguments fit the schema. The
order of the arguments does not matter.
-/

namespace UpdaterBootstrap

inductive FieldType.Takes : FieldType → Constant → FieldValue → Prop
  | text (s : String) : Takes .text (.text s) (.text s)
  | boolean (b : Bool) : Takes .boolean (.boolean b) (.boolean b)
  | integer (n : Int64) : Takes .integer (.integer n) (.integer n)
  | decimal (x : Float) : Takes .decimal (.decimal x) (.decimal x)
  | widened (n : Int64) : Takes .decimal (.integer n) (.decimal (.ofInt n.toInt))

structure AnnotationKind.Admits (kind : AnnotationKind) (arguments : List (String × Constant)) : Prop where
  known : ∀ argument ∈ arguments, ∃ field ∈ kind.fields, field.name = argument.1
  once : (arguments.map Prod.fst).Nodup
  typed : ∀ argument ∈ arguments, ∀ field ∈ kind.fields, field.name = argument.1 →
    ∃ v, field.type.Takes argument.2 v
  complete : ∀ field ∈ kind.fields, field.default = none → field.name ∈ arguments.map Prod.fst

inductive FieldSchema.HasValue (field : FieldSchema) (arguments : List (String × Constant)) :
    FieldValue → Prop
  | given {c : Constant} {v : FieldValue} (hmem : (field.name, c) ∈ arguments)
      (htype : field.type.Takes c v) :
      HasValue field arguments v
  | default {v : FieldValue} (hmem : field.name ∉ arguments.map Prod.fst)
      (hdefault : field.default = some v) :
      HasValue field arguments v

/-! ## Constants in fields -/

theorem accept?_eq_some_iff {type : FieldType} {c : Constant} {v : FieldValue} :
    type.accept? c = some v ↔ type.Takes c v := by
  constructor
  · intro h
    cases type <;> cases c <;> cases h <;> constructor
  · intro h
    cases h <;> rfl

theorem FieldType.Takes.unique {type : FieldType} {c : Constant} {v w : FieldValue} (hv : type.Takes c v)
    (hw : type.Takes c w) : v = w := by
  rw [← accept?_eq_some_iff] at hv hw
  exact Option.some.inj (hv.symm.trans hw)

theorem coerce_eq_ok_iff {kind : AnnotationKind} {field : FieldSchema} {c : Constant} {v : FieldValue} :
    coerce kind field c = .ok v ↔ field.type.Takes c v := by
  rw [← accept?_eq_some_iff]
  cases c with
  | reference name =>
    cases htype : field.type <;> simp [coerce, FieldType.accept?]
  | _ =>
    rw [coerce]
    · cases field.type.accept? _ <;> simp
    · simp

/-! ## Fields by name -/

theorem nodup_names (kind : AnnotationKind) : (kind.fields.map FieldSchema.name).Nodup := by
  cases kind <;> decide

theorem field_eq_of_name {kind : AnnotationKind} {field other : FieldSchema} (h : field ∈ kind.fields)
    (hother : other ∈ kind.fields) (hname : field.name = other.name) : field = other :=
  List.inj_on_of_nodup_map (nodup_names kind) h hother hname

theorem find_field_eq_some_iff {kind : AnnotationKind} {name : String} {field : FieldSchema} :
    kind.fields.find? (·.name == name) = some field ↔ field ∈ kind.fields ∧ field.name = name := by
  constructor
  · intro h
    exact ⟨List.mem_of_find?_eq_some h, by simpa using List.find?_some h⟩
  · rintro ⟨hfield, rfl⟩
    cases h : kind.fields.find? (·.name == field.name) with
    | none =>
      have := List.find?_eq_none.1 h field hfield
      simp at this
    | some other =>
      have hname : other.name = field.name := by simpa using List.find?_some h
      rw [field_eq_of_name (List.mem_of_find?_eq_some h) hfield hname]

/-! ## Collecting -/

def AnnotationKind.Takes (kind : AnnotationKind) (argument : String × Constant)
    (entry : String × FieldValue) : Prop :=
  entry.1 = argument.1 ∧ ∃ field ∈ kind.fields, field.name = argument.1 ∧
    field.type.Takes argument.2 entry.2

theorem isSome_lookup_iff {taken : FieldValues} {name : String} :
    (taken.lookup name).isSome = true ↔ name ∈ taken.map Prod.fst := by
  rw [List.lookup_isSome_iff]
  simp

theorem not_taken_append_iff {taken : FieldValues} {arguments : List (String × Constant)} {name : String}
    {v : FieldValue} :
    (∀ argument ∈ arguments, argument.1 ∉ (taken ++ [(name, v)]).map Prod.fst) ↔
      name ∉ arguments.map Prod.fst ∧ ∀ argument ∈ arguments, argument.1 ∉ taken.map Prod.fst := by
  simp only [List.map_append, List.mem_append, not_or, List.map_cons, List.map_nil, List.mem_singleton,
    List.mem_map]
  constructor
  · intro h
    exact ⟨fun ⟨argument, hmem, hname⟩ => (h argument hmem).2 hname,
      fun argument hmem => (h argument hmem).1⟩
  · rintro ⟨hname, htaken⟩ argument hmem
    exact ⟨htaken argument hmem, fun heq => hname ⟨argument, hmem, heq⟩⟩

/-- The arguments of what is collected name different fields, none of them taken before. -/
theorem collectFields_eq_ok_iff {kind : AnnotationKind} {taken values : FieldValues}
    {arguments : List (String × Constant)} :
    collectFields kind taken arguments = .ok values ↔
      (arguments.map Prod.fst).Nodup ∧ (∀ argument ∈ arguments, argument.1 ∉ taken.map Prod.fst) ∧
        ∃ extra, List.Forall₂ kind.Takes arguments extra ∧ values = taken ++ extra := by
  induction arguments generalizing taken with
  | nil => simp [collectFields, eq_comm]
  | cons argument arguments ih =>
    obtain ⟨name, c⟩ := argument
    rw [collectFields]
    cases hfind : kind.fields.find? (·.name == name) with
    | none =>
      simp only [reduceCtorEq, false_iff]
      rintro ⟨_, _, extra, hextra, _⟩
      cases hextra with
      | cons htakes _ =>
        obtain ⟨_, field, hfield, hname, _⟩ := htakes
        cases hfind.symm.trans (find_field_eq_some_iff.2 ⟨hfield, hname⟩)
    -- the name is free, and what is taken for it keeps later arguments from having it
    | some field =>
      obtain ⟨hfield, hname⟩ := find_field_eq_some_iff.1 hfind
      by_cases htaken : name ∈ taken.map Prod.fst
      · simp only [isSome_lookup_iff.2 htaken, if_true, reduceCtorEq, false_iff]
        intro h
        exact h.2.1 (name, c) List.mem_cons_self htaken
      · have hfree : (taken.lookup name).isSome = false := by rwa [← Bool.not_eq_true, isSome_lookup_iff]
        simp only [hfree, Bool.false_eq_true, if_false, bind_eq_ok, coerce_eq_ok_iff, ih, List.map_cons,
          List.nodup_cons, List.forall_mem_cons, not_taken_append_iff]
        constructor
        · rintro ⟨v, hv, hnodup, ⟨hnot, hnew⟩, extra, hextra, rfl⟩
          have htakes : kind.Takes (name, c) (name, v) := ⟨rfl, field, hfield, hname, hv⟩
          exact ⟨⟨hnot, hnodup⟩, ⟨htaken, hnew⟩, (name, v) :: extra, .cons htakes hextra, by simp⟩
        · rintro ⟨⟨hnot, hnodup⟩, ⟨_, hnew⟩, extra, hextra, rfl⟩
          cases hextra with
          | @cons _ entry _ rest htakes hrest =>
            obtain ⟨name', v⟩ := entry
            obtain ⟨rfl, other, hother, hotherName, hv⟩ := htakes
            obtain rfl := Option.some.inj (hfind.symm.trans (find_field_eq_some_iff.2 ⟨hother, hotherName⟩))
            exact ⟨v, hv, hnodup, ⟨hnot, hnew⟩, rest, hrest, by simp⟩

/-! ## Completing -/

theorem completeFields_eq_ok_iff {kind : AnnotationKind} {taken values : FieldValues}
    {fields : List FieldSchema} :
    completeFields kind taken fields = .ok values ↔
      List.Forall₂ (fun field entry => entry.1 = field.name ∧
        (taken.lookup field.name).or field.default = some entry.2) fields values := by
  induction fields generalizing values with
  | nil =>
    constructor
    · intro h
      rw [← Except.ok.inj h]
      exact .nil
    · intro h
      cases h
      rfl
  | cons field fields ih =>
    rw [completeFields]
    cases hvalue : (taken.lookup field.name).or field.default with
    | none =>
      simp only [reduceCtorEq, false_iff]
      intro h
      cases h with
      | cons hentry _ => cases hvalue.symm.trans hentry.2
    | some v =>
      simp only [bind_eq_ok, pure_eq_ok, ih]
      constructor
      · rintro ⟨rest, hrest, rfl⟩
        exact .cons ⟨rfl, hvalue⟩ hrest
      · intro h
        cases h with
        | cons hentry hrest =>
          obtain ⟨hname, hentry⟩ := hentry
          obtain rfl := Option.some.inj (hvalue.symm.trans hentry)
          exact ⟨_, hrest, by rw [← hname]⟩

/-! ## What was collected for a field -/

theorem exists_forall₂_iff {α β : Type} {r : α → β → Prop} {as : List α} :
    (∃ bs, List.Forall₂ r as bs) ↔ ∀ a ∈ as, ∃ b, r a b := by
  induction as with
  | nil => simp
  | cons a as ih =>
    rw [List.forall_mem_cons, ← ih]
    constructor
    · rintro ⟨_, h⟩
      cases h with
      | cons hfirst hrest => exact ⟨⟨_, hfirst⟩, _, hrest⟩
    · rintro ⟨⟨b, hfirst⟩, bs, hrest⟩
      exact ⟨b :: bs, .cons hfirst hrest⟩

theorem forall₂_congr {α β : Type} {r s : α → β → Prop} {as : List α} {bs : List β}
    (h : ∀ a ∈ as, ∀ b, r a b ↔ s a b) : List.Forall₂ r as bs ↔ List.Forall₂ s as bs := by
  induction as generalizing bs with
  | nil => cases bs <;> simp
  | cons a as ih =>
    obtain ⟨hfirst, hrest⟩ := List.forall_mem_cons.1 h
    cases bs with
    | nil => simp
    | cons b bs => simp [hfirst b, ih hrest]

theorem names_of_forall₂ {α ν : Type} {r : α → String × ν → Prop} {name : α → String} {as : List α}
    {es : List (String × ν)} (hr : ∀ a e, r a e → e.1 = name a) (h : List.Forall₂ r as es) :
    es.map Prod.fst = as.map name := by
  induction h with
  | nil => rfl
  | cons hfirst _ ih => rw [List.map_cons, List.map_cons, hr _ _ hfirst, ih]

section
variable {kind : AnnotationKind} {arguments : List (String × Constant)}

theorem lookup_eq_some_iff {extra : FieldValues} (h : List.Forall₂ kind.Takes arguments extra)
    (hnodup : (arguments.map Prod.fst).Nodup) {field : FieldSchema} (hfield : field ∈ kind.fields)
    {v : FieldValue} :
    extra.lookup field.name = some v ↔ ∃ c, (field.name, c) ∈ arguments ∧ field.type.Takes c v := by
  induction h with
  | nil => simp
  | @cons argument entry arguments extra htakes _ ih =>
    obtain ⟨name, c⟩ := argument
    obtain ⟨name', w⟩ := entry
    obtain ⟨rfl, other, hother, hname, hw⟩ := htakes
    obtain ⟨hnot, hnodup⟩ := List.nodup_cons.1 hnodup
    rw [List.lookup_cons]
    by_cases heq : field.name = name'
    -- the entry is that of the field, and no later argument has its name
    · obtain rfl : field = other := field_eq_of_name hfield hother (heq.trans hname.symm)
      subst heq
      simp only [beq_self_eq_true, Option.some.injEq]
      constructor
      · rintro rfl
        exact ⟨c, List.mem_cons_self, hw⟩
      · rintro ⟨d, hmem, hv⟩
        cases hmem with
        | head => exact hw.unique hv
        | tail _ hmem => exact absurd (List.mem_map_of_mem hmem) hnot
    · have hmem : ∀ d, (field.name, d) ∈ (name', c) :: arguments ↔ (field.name, d) ∈ arguments := by
        simp [heq]
      simp only [beq_false_of_ne heq, hmem, ih hnodup]

theorem value_taken_iff {extra : FieldValues} (h : List.Forall₂ kind.Takes arguments extra)
    (hnodup : (arguments.map Prod.fst).Nodup) {field : FieldSchema} (hfield : field ∈ kind.fields)
    {v : FieldValue} :
    (extra.lookup field.name).or field.default = some v ↔ field.HasValue arguments v := by
  have hsome : ∀ w, extra.lookup field.name = some w ↔ ∃ c, (field.name, c) ∈ arguments ∧
      field.type.Takes c w :=
    fun w => lookup_eq_some_iff h hnodup hfield
  have hnames : (extra.lookup field.name).isSome = true ↔ field.name ∈ arguments.map Prod.fst := by
    rw [isSome_lookup_iff, names_of_forall₂ (fun _ _ htakes => htakes.1) h]
  constructor
  · intro hvalue
    cases hlookup : extra.lookup field.name with
    | none =>
      rw [hlookup] at hvalue hnames
      exact .default (by simpa using hnames) hvalue
    | some w =>
      rw [hlookup] at hvalue
      obtain rfl : w = v := by simpa using hvalue
      obtain ⟨c, hmem, htype⟩ := (hsome w).1 hlookup
      exact .given hmem htype
  · intro hvalue
    cases hvalue with
    | given hmem htype =>
      rw [(hsome v).2 ⟨_, hmem, htype⟩]
      rfl
    | default hmem hdefault =>
      have hlookup : extra.lookup field.name = none := by
        rwa [← hnames, Bool.not_eq_true, Option.isSome_eq_false_iff, Option.isNone_iff_eq_none] at hmem
      rw [hlookup, Option.none_or, hdefault]

theorem evaluate_eq_ok_iff {values : FieldValues} :
    kind.evaluate arguments = .ok values ↔
      (arguments.map Prod.fst).Nodup ∧ (∀ argument ∈ arguments, ∃ entry, kind.Takes argument entry) ∧
        List.Forall₂ (fun field entry => entry.1 = field.name ∧ field.HasValue arguments entry.2)
          kind.fields values := by
  rw [AnnotationKind.evaluate, bind_eq_ok, ← exists_forall₂_iff]
  simp only [collectFields_eq_ok_iff, completeFields_eq_ok_iff]
  constructor
  · rintro ⟨extra, ⟨hnodup, _, _, hextra, rfl⟩, hvalues⟩
    refine ⟨hnodup, ⟨extra, hextra⟩, (forall₂_congr fun field hfield entry => ?_).1 hvalues⟩
    rw [value_taken_iff hextra hnodup hfield]
  · rintro ⟨hnodup, ⟨extra, hextra⟩, hvalues⟩
    refine ⟨extra, ⟨hnodup, by simp, extra, hextra, rfl⟩,
      (forall₂_congr fun field hfield entry => ?_).1 hvalues⟩
    rw [value_taken_iff hextra hnodup hfield]

theorem exists_takes_iff {argument : String × Constant} :
    (∃ entry, kind.Takes argument entry) ↔
      ∃ field ∈ kind.fields, field.name = argument.1 ∧ ∃ v, field.type.Takes argument.2 v := by
  constructor
  · rintro ⟨entry, _, field, hfield, hname, htype⟩
    exact ⟨field, hfield, hname, entry.2, htype⟩
  · rintro ⟨field, hfield, hname, v, htype⟩
    exact ⟨(argument.1, v), rfl, field, hfield, hname, htype⟩

theorem hasValue_of_perm {arguments' : List (String × Constant)} (h : arguments.Perm arguments')
    {field : FieldSchema}
    {v : FieldValue} (hv : field.HasValue arguments v) : field.HasValue arguments' v := by
  cases hv with
  | given hmem htype => exact .given (h.subset hmem) htype
  | default hmem hdefault => exact .default (fun hmem' => hmem ((h.map Prod.fst).mem_iff.2 hmem')) hdefault

theorem evaluate_of_perm {arguments' : List (String × Constant)} (h : arguments.Perm arguments')
    {values : FieldValues}
    (hvalues : kind.evaluate arguments = .ok values) : kind.evaluate arguments' = .ok values := by
  rw [evaluate_eq_ok_iff] at hvalues ⊢
  obtain ⟨hnodup, htakes, hfields⟩ := hvalues
  refine ⟨(h.map Prod.fst).nodup_iff.1 hnodup, fun argument hmem => htakes argument (h.symm.subset hmem), ?_⟩
  exact hfields.imp fun field entry ⟨hname, hv⟩ => ⟨hname, hasValue_of_perm h hv⟩

theorem evaluates_iff_admits : (∃ values, kind.evaluate arguments = .ok values) ↔ kind.Admits arguments := by
  simp only [evaluate_eq_ok_iff, exists_and_left, exists_forall₂_iff, exists_takes_iff]
  constructor
  · rintro ⟨hnodup, htakes, hfields⟩
    refine ⟨?_, hnodup, ?_, ?_⟩
    · intro argument hmem
      obtain ⟨field, hfield, hname, _⟩ := htakes argument hmem
      exact ⟨field, hfield, hname⟩
    · intro argument hmem field hfield hname
      obtain ⟨other, hother, hotherName, v, htype⟩ := htakes argument hmem
      -- no two fields of a schema have the same name
      obtain rfl := field_eq_of_name hfield hother (hname.trans hotherName.symm)
      exact ⟨v, htype⟩
    · intro field hfield hdefault
      obtain ⟨entry, _, hvalue⟩ := hfields field hfield
      cases hvalue with
      | given hmem _ => exact List.mem_map_of_mem hmem
      | default _ hsome => cases hdefault.symm.trans hsome
  · intro h
    refine ⟨h.once, ?_, ?_⟩
    · intro argument hmem
      obtain ⟨field, hfield, hname⟩ := h.known argument hmem
      exact ⟨field, hfield, hname, h.typed argument hmem field hfield hname⟩
    · intro field hfield
      -- a field gets its argument, and its default only where it has none
      by_cases hname : field.name ∈ arguments.map Prod.fst
      · obtain ⟨argument, hmem, heq⟩ := List.mem_map.1 hname
        obtain ⟨v, htype⟩ := h.typed argument hmem field hfield heq.symm
        exact ⟨(field.name, v), rfl, .given (heq ▸ hmem) htype⟩
      · cases hdefault : field.default with
        | none => exact absurd (h.complete field hfield hdefault) hname
        | some v => exact ⟨(field.name, v), rfl, .default hname hdefault⟩

end

theorem evaluate_spec (kind : AnnotationKind) (arguments : List (String × Constant)) :
    ((∃ values, kind.evaluate arguments = .ok values) ↔ kind.Admits arguments) ∧
    (∀ values, kind.evaluate arguments = .ok values →
      List.Forall₂ (fun field entry => entry.1 = field.name ∧ field.HasValue arguments entry.2)
        kind.fields values ∧
      (values.map Prod.fst).Nodup) ∧
    ∀ arguments', arguments.Perm arguments' →
      (kind.evaluate arguments).toOption = (kind.evaluate arguments').toOption := by
  refine ⟨evaluates_iff_admits, ?_, ?_⟩
  · intro values hvalues
    have hfields := (evaluate_eq_ok_iff.1 hvalues).2.2
    refine ⟨hfields, ?_⟩
    rw [names_of_forall₂ (fun _ _ hentry => hentry.1) hfields]
    exact nodup_names kind
  · intro arguments' hperm
    cases hvalues : kind.evaluate arguments with
    | ok values => rw [evaluate_of_perm hperm hvalues]
    | error fault =>
      cases hvalues' : kind.evaluate arguments' with
      | ok values => cases hvalues.symm.trans (evaluate_of_perm hperm.symm hvalues')
      | error fault' => rfl

end UpdaterBootstrap
