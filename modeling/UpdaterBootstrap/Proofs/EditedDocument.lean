import Mathlib.Data.List.Infix
import UpdaterBootstrap.Proofs.ReadBack

/-!
# Documents after any edits

A document is made step by step: properties are set, set unless they hold nothing, and now and then
it is written and read again. What it holds afterwards depends on the insertions that had an effect
and on nothing else (`Document.edit_empty`): one step adds its own insertion to them
(`IsMadeBy.edit`).
-/

namespace UpdaterBootstrap

inductive Edit
  | insert (name : String) (value : Property)
  | insertNonEmpty (name : String) (value : Property)
  | reload
  deriving DecidableEq, Repr

namespace Edit

def apply (d : Document) : Edit → Except ManifestFault Document
  | insert name value => .ok (d.insert name value)
  | insertNonEmpty name value => .ok (d.insertNonEmpty name value)
  | reload => Document.read d.write

def insertion? : Edit → Option (String × Property)
  | insert name value => some (name, value)
  | insertNonEmpty name value => if value.isEmpty then none else some (name, value)
  | reload => none

end Edit

namespace Document

def edit (d : Document) : List Edit → Except ManifestFault Document
  | [] => .ok d
  | e :: es => e.apply d >>= fun d => d.edit es

/-- Names in the order of their first insertion, each with the value of the last one. -/
structure IsMadeBy (path : String) (insertions : List (String × Property)) (d : Document) : Prop where
  nodePath : d.nodePath = path
  nodup : d.names.Nodup
  names : d.names = (insertions.map Prod.fst).eraseDups
  get? : ∀ name, d.get? name = insertions.reverse.lookup name

namespace IsMadeBy
variable {path : String} {ins : List (String × Property)} {d : Document}

theorem empty (path : String) : IsMadeBy path [] (Document.empty path) :=
  ⟨rfl, List.nodup_nil, rfl, fun _ => rfl⟩

theorem insert (h : IsMadeBy path ins d) (name : String) (value : Property) :
    IsMadeBy path (ins ++ [(name, value)]) (d.insert name value) := by
  have hmem : name ∈ d.names ↔ name ∈ ins.map Prod.fst := by rw [h.names, List.mem_eraseDups]
  constructor
  · exact h.nodePath
  · rw [names_insert]
    by_cases hname : name ∈ d.names
    · simpa [hname] using h.nodup
    · rw [if_neg hname, List.nodup_append_comm]
      simpa using ⟨hname, h.nodup⟩
  · rw [names_insert, List.map_append, List.eraseDups_append, ← h.names]
    by_cases hname : name ∈ d.names
    · have hold : name ∈ ins.map Prod.fst := hmem.1 hname
      simp [hname, List.removeAll, hold]
    · have hnew : name ∉ ins.map Prod.fst := fun hold => hname (hmem.2 hold)
      simp [hname, List.removeAll, hnew, List.eraseDups_cons]
  · intro other
    rw [get?_insert, h.get?, List.reverse_append, List.reverse_singleton, List.singleton_append,
      List.lookup_cons]
    by_cases hother : other = name <;> simp [hother, beq_eq_decide]

theorem insertNonEmpty (h : IsMadeBy path ins d) (name : String) (value : Property) :
    IsMadeBy path (ins ++ (Edit.insertNonEmpty name value).insertion?.toList)
      (d.insertNonEmpty name value) := by
  unfold Document.insertNonEmpty
  cases hempty : value.isEmpty with
  | true => simpa [Edit.insertion?, hempty] using h
  | false => simpa [Edit.insertion?, hempty] using h.insert name value

/-- One step of the history. Only reading the document again needs that its text is read as its tree. -/
theorem edit (h : IsMadeBy path ins d) {e : Edit} (hyaml : e = .reload → Yaml.read d.write = .ok d.toYaml) :
    ∃ d', e.apply d = .ok d' ∧ IsMadeBy path (ins ++ e.insertion?.toList) d' := by
  cases e with
  | insert name value => exact ⟨_, rfl, h.insert name value⟩
  | insertNonEmpty name value => exact ⟨_, rfl, h.insertNonEmpty name value⟩
  | reload => exact ⟨d, read_write h.nodup (hyaml rfl), by simpa [Edit.insertion?] using h⟩

theorem edits (h : IsMadeBy path ins d) {es : List Edit}
    (hyaml : ∀ done d', done ++ [.reload] <+: es → d.edit done = .ok d' →
      Yaml.read d'.write = .ok d'.toYaml) :
    ∃ d', d.edit es = .ok d' ∧ IsMadeBy path (ins ++ es.filterMap Edit.insertion?) d' := by
  induction es generalizing ins d with
  | nil => exact ⟨d, rfl, by simpa using h⟩
  | cons e es ih =>
    have hfirst : e = .reload → Yaml.read d.write = .ok d.toYaml := by
      intro he
      exact hyaml [] d (by simp [he]) rfl
    obtain ⟨d₁, happly, h₁⟩ := h.edit hfirst
    have hrest : ∀ done d', done ++ [.reload] <+: es → d₁.edit done = .ok d' →
        Yaml.read d'.write = .ok d'.toYaml := by
      intro done d' hdone hd'
      apply hyaml (e :: done) d'
      · simpa using hdone
      · rw [Document.edit, happly, ok_bind, hd']
    obtain ⟨d₂, hedit, h₂⟩ := ih h₁ hrest
    refine ⟨d₂, by rw [Document.edit, happly, ok_bind, hedit], ?_⟩
    cases hi : e.insertion? <;> simpa [hi] using h₂

end IsMadeBy

/-- Edits of a new document succeed if its text is read as its tree wherever it is read again.
Afterwards no name is there twice, names stand in the order of their first insertion, each has the
value of the last one, and the document is read back from its tree. -/
theorem edit_empty (path : String) (es : List Edit)
    (hyaml : ∀ done d, done ++ [.reload] <+: es → (empty path).edit done = .ok d →
      Yaml.read d.write = .ok d.toYaml) :
    ∃ d, (empty path).edit es = .ok d ∧ d.nodePath = path ∧ d.names.Nodup ∧
      d.names = ((es.filterMap Edit.insertion?).map Prod.fst).eraseDups ∧
      (∀ name, d.get? name = (es.filterMap Edit.insertion?).reverse.lookup name) ∧
      ofYaml d.toYaml = .ok d ∧ (Yaml.read d.write = .ok d.toYaml → Document.read d.write = .ok d) := by
  obtain ⟨d, hedit, h⟩ := (IsMadeBy.empty path).edits hyaml
  rw [List.nil_append] at h
  exact ⟨d, hedit, h.nodePath, h.nodup, h.names, h.get?, ofYaml_toYaml h.nodup, read_write h.nodup⟩

def sampleEdits : List Edit :=
  [.insert "b" (.text "yes"), .insertNonEmpty "c" (.text " \n"), .insert "a" (.list []), .reload,
    .insert "b" (.integer Int64.minValue), .insertNonEmpty "c" (.list ["1", ""])]

theorem edit_empty_sample :
    ∃ d, (empty "/a: b").edit sampleEdits = .ok d ∧ d.names = ["b", "a", "c"] ∧
      d.get? "b" = some (.integer Int64.minValue) ∧ Document.read d.write = .ok d := by
  have hall : ∀ es ∈ sampleEdits.inits, ((empty "/a: b").edit es).toOption.all
      (fun d => (Yaml.read d.write).toOption.any (Yaml.agrees · d.toYaml)) = true := by decide +kernel
  have hreads : ∀ es d, es <+: sampleEdits → (empty "/a: b").edit es = .ok d →
      Yaml.read d.write = .ok d.toYaml := by
    intro es d hes hd
    have hthis := hall es ((List.mem_inits es sampleEdits).2 hes)
    rw [hd] at hthis
    exact Yaml.read_eq_ok hthis
  obtain ⟨d, hedit, -, -, hnames, hget, -, hread⟩ := edit_empty "/a: b" sampleEdits
    fun done d hdone => hreads done d ((List.prefix_append done [.reload]).trans hdone)
  refine ⟨d, hedit, hnames.trans (by decide), (hget "b").trans (by decide), ?_⟩
  exact hread (hreads sampleEdits d List.prefix_rfl hedit)

end Document

end UpdaterBootstrap
